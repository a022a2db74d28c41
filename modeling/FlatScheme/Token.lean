import FlatScheme.Value

/-!
Tokens, and what can go wrong in reading.

A text is read from a *source*: the characters not yet read, and what becomes of the stream behind
them. A stream either ends there or fails there, with a reason, on every further attempt to read.
-/

namespace FlatScheme

/-- The smallest pieces of a text that mean something. -/
inductive Token where
  | «open»
  | close
  | quote
  /-- The mark `#;`, which makes a comment of the datum behind it. -/
  | skip
  | num (n : Number)
  | str (s : String)
  | sym (name : String)
  | bool (b : Bool)
  deriving DecidableEq

/-- Why a text is not a sequence of expressions. -/
inductive SyntaxError where
  | unexpectedEnd
  | unbalanced
  | unexpectedClose
  | unterminatedString
  | unterminatedComment
  | invalidToken (text : List Char)
  | invalidCharacter (c : Char)
  | invalidNumber (text : List Char)
  | invalidEscape (c : Char)
  | invalidHexDigit (c : Char)
  | hexOutOfRange
  deriving DecidableEq

namespace SyntaxError

/-- Text between the quote marks that messages use. -/
def marked (text : List Char) : String := String.ofList ('\x27' :: text ++ ['\x27'])

def message : SyntaxError → String
  | .unexpectedEnd => "unexpected end of input"
  | .unbalanced => "unbalanced parentheses"
  | .unexpectedClose => "unexpected " ++ marked [')']
  | .unterminatedString => "unterminated string"
  | .unterminatedComment => "unterminated block comment"
  | .invalidToken text => "invalid token " ++ marked text
  | .invalidCharacter c => "invalid character " ++ marked [c]
  | .invalidNumber text => "invalid number literal " ++ marked text
  | .invalidEscape c => "invalid escape sequence " ++ marked ['\\', c]
  | .invalidHexDigit c => "invalid hex digit " ++ marked [c]
  | .hexOutOfRange => "hex escape out of range"

/-- Did the text end too early, so that more text could still make it right? -/
def isIncomplete : SyntaxError → Bool
  | .unexpectedEnd | .unbalanced | .unterminatedString | .unterminatedComment => true
  | _ => false

end SyntaxError

/-- Why reading stopped short of an expression. -/
inductive Fault where
  | syntaxError (e : SyntaxError)
  /-- The stream failed. -/
  | stream (reason : String)
  deriving DecidableEq

namespace Fault

def message : Fault → String
  | .syntaxError e => "syntax error: " ++ e.message
  | .stream reason => reason

def isIncomplete : Fault → Bool
  | .syntaxError e => e.isIncomplete
  | .stream _ => false

end Fault

/-- What reading meets instead of a token. -/
inductive Stop where
  | finish
  | fault (f : Fault)
  deriving DecidableEq

/-- What is left to read: characters, and the reason why the stream fails behind them, if it does not
    end there. -/
structure Source where
  unread : List Char
  failure : Option String
  deriving DecidableEq

/-- The source of a complete text. -/
def Source.ofString (text : String) : Source := ⟨text.toList, none⟩

end FlatScheme
