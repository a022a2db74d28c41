import FlatScheme.Number.Decimal

/-!
The numbers of the language: exact integers of any size and binary floats.

Arithmetic on two integers is exact; with a float among the operands the integer is first rounded
to a float. Division always gives a float. An integer is *long* when it does not fit in a signed
64-bit word, or when it carries the `wide` mark, which only `x - 0` can set, for `x` a word of at
least `2 ^ 31`. Being long shows in one place: a long integer times a float is their float sum.
-/

namespace FlatScheme

/-- A number. The mark `wide` on an integer says that it is treated as long whatever its size. -/
inductive Number where
  | int (n : Int) (wide : Bool)
  | float (x : Binary64)
  deriving DecidableEq

namespace Number

/-- An integer held in the ordinary way. -/
def ofInt (n : Int) : Number := .int n false

def zero : Number := ofInt 0

def one : Number := ofInt 1

/-- Does an integer fit in a signed 64-bit word? -/
def fitsWord (n : Int) : Bool := -0x8000000000000000 ≤ n && n < 0x8000000000000000

/-- Is the integer treated as long? -/
def isLong (n : Int) (wide : Bool) : Bool := wide || !fitsWord n

/-- The nearest float. -/
def toFloat : Number → Binary64
  | .int n _ => .ofInt n
  | .float x => x

/-! ### Tests and order -/

def isNaN : Number → Bool
  | .int _ _ => false
  | .float x => x.isNaN

/-- Exact order on integers, the order of floats once a float takes part; `eq` against a NaN. -/
def cmp : Number → Number → Ordering
  | .int a _, .int b _ => compare a b
  | a, b => a.toFloat.cmp b.toFloat

/-- Integer zero or a float zero of either sign. -/
def isZero (a : Number) : Bool := !a.isNaN && a.cmp zero == .eq

/-- Is the number below zero? Not so of zeros and NaN. -/
def isNegative (a : Number) : Bool := a.cmp zero == .lt

/-! ### Arithmetic -/

def add : Number → Number → Number
  | .int a _, .int b _ => ofInt (a + b)
  | a, b => .float (a.toFloat.add b.toFloat)

/-- Difference. Taking integer zero from a word of at least `2 ^ 31` leaves it wide. -/
def sub : Number → Number → Number
  | .int a wide, .int b _ =>
    if b = 0 && 0x80000000 ≤ a && !isLong a wide then .int a true else ofInt (a - b)
  | a, b => .float (a.toFloat.sub b.toFloat)

/-- Product. A long integer and then a float give their float sum. -/
def mul : Number → Number → Number
  | .int a _, .int b _ => ofInt (a * b)
  | .int a wide, .float y =>
    .float (if isLong a wide then (Binary64.ofInt a).add y else (Binary64.ofInt a).mul y)
  | a, b => .float (a.toFloat.mul b.toFloat)

/-- True division, always a float. -/
def div (a b : Number) : Number := .float (a.toFloat.div b.toFloat)

/-- Quotient and remainder toward zero by way of floats. The quotient is rounded first and then cut
    to an integer; if it is not finite it stays a float. -/
def floatQuoRem (a b : Number) : Number × Number :=
  let quotient := a.toFloat.div b.toFloat
  let whole := match quotient.truncate? with
    | some n => ofInt n
    | none => .float quotient
  (whole, .float (a.toFloat.remainder b.toFloat))

/-- Quotient and remainder of integers toward zero. A remainder that has not the sign of the divisor is
    mended by one step down: the quotient loses one, and the remainder gains the divisor. -/
def wholeQuoRem (a b : Int) : Int × Int :=
  let q := a.tdiv b
  let r := a.tmod b
  if r ≠ 0 ∧ ¬(r < 0 ↔ b < 0) then (q - 1, r + b) else (q, r)

/-- Quotient rounded toward negative infinity, and the remainder with the sign of the divisor. -/
def floorQuoRem : Number → Number → Number × Number
  | .int a _, .int b _ => (ofInt (wholeQuoRem a b).1, ofInt (wholeQuoRem a b).2)
  | a, b =>
    let (q, r) := floatQuoRem a b
    if r.cmp zero != .eq && r.isNegative != b.isNegative then (q.sub one, r.add b) else (q, r)

/-! ### Text -/

/-- Floats are written positionally from `0.0001` up to a million, and with an exponent of at least two
    digits otherwise. -/
def layout : Decimal.Layout := ⟨-4, 6, 2⟩

/-- The text of a float. -/
def floatText : Binary64 → String
  | .nan => "NaN.0"
  | .signed negative rank =>
    if rank.val = infiniteRank then if negative then "-Inf.0" else "+Inf.0"
    else
      (if negative then "-" else "") ++
        if rank.val = 0 then "0.0" else String.ofList ((Decimal.shortest rank.val).text layout)

def text : Number → String
  | .int n _ => toString n
  | .float x => floatText x

/-- Read an integer literal: an optional sign and decimal digits. -/
def readInt? (cs : List Char) : Option Int :=
  let (negative, ds) := Decimal.sign cs
  if ds.isEmpty || !ds.all Char.isDigit then none
  else
    let n := Decimal.digitsValue 0 ds
    some (if negative then -(n : Int) else n)

/-- Read a number literal: an integer if it is one, else a finite float. -/
def read? (cs : List Char) : Option Number :=
  match readInt? cs with
  | some n => some (ofInt n)
  | none => (Binary64.read? cs).map .float

end Number

end FlatScheme
