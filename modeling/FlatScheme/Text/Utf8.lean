import FlatScheme.Text.Classes

/-!
Decoding bytes as UTF-8 where any bytes may come.

A well-formed sequence of one to four bytes is its character. A byte that starts none (a stray
continuation byte, an overlong form, a surrogate, a code point past `10ffff`, a sequence cut short)
is read alone as the replacement character, and decoding goes on with the next byte.
-/

namespace FlatScheme.Text

/-- The payload of a continuation byte. -/
def continuation? (b : UInt8) : Option Nat :=
  if 0x80 ≤ b && b < 0xc0 then some (b.toNat - 0x80) else none

/-- The character of a code point put together from a sequence, if the sequence was the shortest form
    of a scalar value. -/
def scalar? (least n : Nat) : Option Char :=
  if least ≤ n && n.isValidChar then some (Char.ofNat n) else none

/-- A two-byte form. -/
def pair? (b b₁ : UInt8) : Option Char := do
  if 0xc0 ≤ b && b < 0xe0 then
    scalar? 0x80 ((b.toNat - 0xc0) * 64 + (← continuation? b₁))
  else none

/-- A three-byte form. -/
def triple? (b b₁ b₂ : UInt8) : Option Char := do
  if 0xe0 ≤ b && b < 0xf0 then
    let n := (b.toNat - 0xe0) * 64 + (← continuation? b₁)
    scalar? 0x800 (n * 64 + (← continuation? b₂))
  else none

/-- A four-byte form. -/
def quadruple? (b b₁ b₂ b₃ : UInt8) : Option Char := do
  if 0xf0 ≤ b && b < 0xf8 then
    let n := (b.toNat - 0xf0) * 64 + (← continuation? b₁)
    let n := n * 64 + (← continuation? b₂)
    scalar? 0x10000 (n * 64 + (← continuation? b₃))
  else none

/-- The character of more than one byte that begins with `b`, and how many bytes of `rest` belong
    to it. -/
def sequence? (b : UInt8) : List UInt8 → Option (Char × Nat)
  | b₁ :: b₂ :: b₃ :: _ =>
    (pair? b b₁).map (·, 1) <|> (triple? b b₁ b₂).map (·, 2) <|>
      (quadruple? b b₁ b₂ b₃).map (·, 3)
  | [b₁, b₂] => (pair? b b₁).map (·, 1) <|> (triple? b b₁ b₂).map (·, 2)
  | [b₁] => (pair? b b₁).map (·, 1)
  | [] => none

/-- Decode on from the characters read so far, which are kept in reverse; `skip` counts bytes that
    belong to the last of them. -/
def decodeFrom : Nat → List Char → List UInt8 → List Char
  | _, read, [] => read.reverse
  | skip + 1, read, _ :: rest => decodeFrom skip read rest
  | 0, read, b :: rest =>
    if b < 0x80 then decodeFrom 0 (Char.ofNat b.toNat :: read) rest
    else
      match sequence? b rest with
      | some (c, more) => decodeFrom more (c :: read) rest
      | none => decodeFrom 0 (replacement :: read) rest

/-- The characters of a byte sequence. -/
def decode (bytes : List UInt8) : List Char := decodeFrom 0 [] bytes

end FlatScheme.Text
