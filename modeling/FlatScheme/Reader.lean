import FlatScheme.Token.Lexer

/-!
From tokens to expressions.

The reader is a pushdown automaton. Its stack holds what has been begun and not finished: lists, quote
marks waiting for their datum, and datum comments waiting for theirs. `feed` takes one token; nothing is
ever looked at ahead of time, so between two expressions the state of the reader is the unread source
alone.

A datum comment stands in front of a datum: inside a list, once `#;` and its datum have been read, a
further datum is *owed* before the list may close.
-/

namespace FlatScheme

namespace Reader

open Lexer (lex lex_token_length)

/-- Something begun and not finished. -/
inductive Frame where
  /-- A list with its items so far in reverse, and whether another item is owed. -/
  | list (items : List Expr) (owed : Bool)
  | quote
  | skip

/-- What a token leads to. -/
inductive Progress where
  | done (x : Expr)
  | more (stack : List Frame)
  | bad (e : SyntaxError)

/-- After a datum comment: a list is owed a datum in its place. -/
def owe : List Frame → List Frame
  | .list items _ :: stack => .list items true :: stack
  | stack => stack

/-- A datum is complete: hand it to what was waiting for it. -/
def complete : List Frame → Expr → Progress
  | [], x => .done x
  | .list items _ :: stack, x => .more (.list (x :: items) false :: stack)
  | .quote :: stack, x => complete stack (.quoted x.datum)
  | .skip :: stack, _ => .more (owe stack)

/-- Take one token. -/
def feed : List Frame → Token → Progress
  | stack, .open => .more (.list [] false :: stack)
  | .list items false :: stack, .close => complete stack (.list items.reverse)
  | _, .close => .bad .unexpectedClose
  | stack, .quote => .more (.quote :: stack)
  | stack, .skip => .more (.skip :: stack)
  | stack, .num n => complete stack (.num n)
  | stack, .str s => complete stack (.str s)
  | stack, .sym x => complete stack (.sym x)
  | stack, .bool b => complete stack (.quoted (.bool b))

/-- The end of the input: fine between expressions, too early anywhere else. -/
def finish : List Frame → Stop
  | [] => .finish
  | .list _ false :: _ => .fault (.syntaxError .unbalanced)
  | _ => .fault (.syntaxError .unexpectedEnd)

/-- Feed tokens until an expression is complete. -/
def readFrom (failure : Option String) (stack : List Frame) (cs : List Char) :
    Except Stop Expr × List Char :=
  match _h : lex failure cs with
  | (.ok t, rest) =>
    match feed stack t with
    | .done x => (.ok x, rest)
    | .more stack' => readFrom failure stack' rest
    | .bad e => (.error (.fault (.syntaxError e)), rest)
  | (.error .finish, rest) => (.error (finish stack), rest)
  | (.error (.fault f), rest) => (.error (.fault f), rest)
termination_by cs.length
decreasing_by exact lex_token_length ‹_›

/-- An expression costs at least one character. -/
theorem readFrom_length {failure : Option String} {stack : List Frame} {cs rest : List Char} {x : Expr}
    (h : readFrom failure stack cs = (.ok x, rest)) : rest.length < cs.length := by
  fun_induction readFrom failure stack cs <;> grind [→ lex_token_length]

end Reader

namespace Source

open Reader (readFrom readFrom_length)

/-- The next expression, and what is left to read behind it. -/
def next (src : Source) : Except Stop Expr × Source :=
  match readFrom src.failure [] src.unread with
  | (result, rest) => (result, { src with unread := rest })

theorem next_length {src rest : Source} {x : Expr} (h : src.next = (.ok x, rest)) :
    rest.unread.length < src.unread.length := by
  unfold next at h
  split at h
  next result unread heq =>
    obtain ⟨rfl, rfl⟩ := Prod.mk.inj h
    exact readFrom_length heq

/-- One expression; the end of the input is a fault. -/
def readOne (src : Source) : Except Fault Expr :=
  match src.next.1 with
  | .ok x => .ok x
  | .error .finish => .error (.syntaxError .unexpectedEnd)
  | .error (.fault f) => .error f

/-- All expressions up to the end of the input, behind those already read, which are kept in reverse. -/
def readRest (src : Source) (done : List Expr) : Except Fault (List Expr) :=
  match _h : src.next with
  | (.ok x, rest) => readRest rest (x :: done)
  | (.error .finish, _) => .ok done.reverse
  | (.error (.fault f), _) => .error f
termination_by src.unread.length
decreasing_by exact next_length ‹_›

/-- All expressions of the input. -/
def readAll (src : Source) : Except Fault (List Expr) := src.readRest []

end Source

end FlatScheme
