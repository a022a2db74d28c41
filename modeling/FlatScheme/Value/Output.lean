import FlatScheme.Value.Printer

/-!
Handing written forms to an output.

An output takes one write after the other and may refuse any of them. `encode` walks over a value or
an expression and hands each piece of its written form to the output as it comes to it. Whether a
refusal ends the walk is up to the monad the output works in: in one with errors the first error is
the result, and nothing is handed over behind it.
-/

namespace FlatScheme

section

variable {m : Type → Type} [Monad m] (write : String → m Unit)

namespace Value

mutual

/-- Hand the written form of a value to an output. -/
def encode : Value → m Unit
  | .emptyPair => do
    write "("
    write ")"
  | .pair car cdr => do
    write "("
    encode car
    encodeTail cdr
  | v => write v.atomText

/-- Hand over what follows the first element of a list, the closing parenthesis included. -/
def encodeTail : Value → m Unit
  | .nil => write ")"
  | .emptyPair => write ")"
  | .pair car cdr => do
    write " "
    encode car
    encodeTail cdr
  | v => do
    write " . "
    write v.atomText
    write ")"

end

end Value

namespace Expr

mutual

/-- Hand the written form of an expression to an output. A quoted boolean needs no quote mark. -/
def encode : Expr → m Unit
  | .absent => write "()"
  | .num n => write n.text
  | .str s => write (stringLiteral s)
  | .sym x => write x
  | .quoted (.bool b) => write (boolLiteral b)
  | .quoted d => do
    write "'"
    d.encode write
  | .list [] => do
    write "("
    write ")"
  | .list (x :: xs) => do
    write "("
    encode x
    encodeRest xs

/-- Hand over the items after the first, the closing parenthesis included. -/
def encodeRest : List Expr → m Unit
  | [] => write ")"
  | x :: xs => do
    write " "
    encode x
    encodeRest xs

end

end Expr

end

/-- Anything with a written form. -/
inductive Written where
  | value (v : Value)
  | expr (e : Expr)

namespace Written

/-- The writes of a value or an expression. -/
def writes : Written → List String
  | .value v => v.writes
  | .expr e => e.writes

/-- The text of a value or an expression. -/
def text : Written → String
  | .value v => v.text
  | .expr e => e.text

/-- Hand a written form to an output. -/
def encode {m : Type → Type} [Monad m] (write : String → m Unit) : Written → m Unit
  | .value v => v.encode write
  | .expr e => e.encode write

end Written

/-! ### Outputs -/

/-- An output that takes everything: the text so far grows by each write. -/
def appendText (w : String) : StateM String Unit := modify (· ++ w)

/-- An output of limited capacity: what it has taken, how many bytes more it has room for, and whether
    it has refused a write. -/
structure Limited where
  taken : String
  room : Nat
  refused : Bool

namespace Limited

/-- An output of `capacity` bytes that holds nothing yet. -/
def ofCapacity (capacity : Nat) : Limited := ⟨"", capacity, false⟩

/-- A write is taken if it fits as a whole. Behind the first that does not, none is taken any more. -/
def write (w : String) : EStateM Unit Limited Unit := fun out =>
  if out.refused = false ∧ w.utf8ByteSize ≤ out.room then
    .ok () { out with taken := out.taken ++ w, room := out.room - w.utf8ByteSize }
  else .error () { out with refused := true }

end Limited

end FlatScheme
