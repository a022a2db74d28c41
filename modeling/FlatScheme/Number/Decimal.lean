import FlatScheme.Number.Binary64

/-!
Floats as decimal text, both ways.

Writing picks the shortest decimal that reads back as the same float: on the grids of 1, 2, … 17
significant digits, the first grid with a point in the interval of reals that round to the float wins,
and of two such points the nearer, or the even one when the float lies half-way between. Everything is
compared exactly on natural numbers. How the digits are then laid out is a parameter, `Layout`.

Reading takes an optional sign, digits with an optional point among them, and an optional exponent; a
decimal too large for a finite float is refused.
-/

namespace FlatScheme

/-- The decimal `digits * 10 ^ exponent`. -/
structure Decimal where
  digits : Nat
  exponent : Int
  deriving DecidableEq, Repr

namespace Decimal

/-! ### The shortest decimal of a rank -/

/-- The decimal exponent of the leading digit of the magnitude of rank `r`. Every positive magnitude
    exceeds `10 ^ -400`, so scaling by `10 ^ 400` leaves a positive whole part with as many digits as the
    exponent says. -/
def leadingExponent (r : Nat) : Int :=
  ((Nat.toDigits 10 (Binary64.units r * Nat.pow 10 400 / Binary64.one)).length : Int) - 401

/-- Does `c * den / scale` lie among the reals that round to rank `r`, where `den / scale` is one step
    of a decimal grid in units? The ends of the interval are the midpoints to the neighbouring ranks,
    and belong to it when `r` is even. -/
def readsBack (r scale den c : Nat) : Bool :=
  let low := (Binary64.units (r - 1) + Binary64.units r) * scale
  let high := (Binary64.units r + Binary64.units (r + 1)) * scale
  let point := 2 * c * den
  if r % 2 = 0 then low ≤ point && point ≤ high else low < point && point < high

/-- Is the point above nearer than the point `low`, when `rest` out of `den` lie above `low`? Half-way
    the even point counts as the nearer. -/
def nearerAbove (low rest den : Nat) : Bool :=
  den < 2 * rest || (2 * rest == den && low % 2 == 1)

/-- The point of the grid `10 ^ exponent` that reads back as rank `r`, the nearer of two. -/
def onGrid? (r : Nat) (exponent : Int) : Option Nat :=
  let scale := Nat.pow 10 (-exponent).toNat
  let den := Binary64.one * Nat.pow 10 exponent.toNat
  let num := Binary64.units r * scale
  let low := num / den
  let rest := num % den
  match readsBack r scale den low, readsBack r scale den (low + 1) with
  | true, true => some (if nearerAbove low rest den then low + 1 else low)
  | true, false => some low
  | false, true => some (low + 1)
  | false, false => none

/-- Drop trailing zeros of the digits, raising the exponent; at most `count` of them. -/
def strip : Nat → Decimal → Decimal
  | 0, d => d
  | count + 1, d =>
    if d.digits % 10 = 0 then strip count ⟨d.digits / 10, d.exponent + 1⟩ else d

/-- The shortest decimal that reads back as the positive finite magnitude of rank `r`. -/
def shortest (r : Nat) : Decimal :=
  let lead := leadingExponent r
  let found := (List.range 17).findSome? fun (n : Nat) =>
    (onGrid? r (lead - n)).map fun c => strip 18 ⟨c, lead - n⟩
  found.getD ⟨Binary64.units r, 0⟩

/-! ### Layout -/

/-- Where positional notation ends, and how wide an exponent is at least. A decimal is written
    positionally when the exponent of its leading digit is at least `least` and less than `bound`. -/
structure Layout where
  least : Int
  bound : Int
  exponentWidth : Nat

/-- A signed exponent, padded with zeros. -/
def exponentText (width : Nat) (x : Int) : List Char :=
  let ds := Nat.toDigits 10 x.natAbs
  (if x < 0 then '-' else '+') :: (List.replicate (width - ds.length) '0' ++ ds)

/-- One digit, the others behind a point if there are any, and the exponent. -/
def scientific (width : Nat) (ds : List Char) (lead : Int) : List Char :=
  let fraction := match ds.drop 1 with
    | [] => []
    | rest => '.' :: rest
  ds.take 1 ++ fraction ++ 'e' :: exponentText width lead

/-- Digits around the point, at least one on each side. -/
def positional (ds : List Char) (lead : Int) : List Char :=
  if lead < 0 then '0' :: '.' :: (List.replicate (-lead - 1).toNat '0' ++ ds)
  else
    let whole := (lead + 1).toNat
    let padded := ds ++ List.replicate (whole - ds.length) '0'
    let fraction := match padded.drop whole with
      | [] => ['0']
      | rest => rest
    padded.take whole ++ '.' :: fraction

/-- The text of a positive decimal. -/
def text (layout : Layout) (d : Decimal) : List Char :=
  let ds := Nat.toDigits 10 d.digits
  let lead := d.exponent + ds.length - 1
  if layout.least ≤ lead && lead < layout.bound then positional ds lead
  else scientific layout.exponentWidth ds lead

/-! ### Reading -/

/-- The value of a run of decimal digits after the digits read so far. -/
def digitsValue (start : Nat) (ds : List Char) : Nat :=
  ds.foldl (fun n c => n * 10 + (c.toNat - '0'.toNat)) start

/-- The value of an exponent's digits. Digits behind a value of ten thousand or more are passed over. -/
def exponentValue (ds : List Char) : Nat :=
  ds.foldl (fun n c => if n < 10000 then n * 10 + (c.toNat - '0'.toNat) else n) 0

/-- A leading sign: whether it is a minus, and the text behind it. -/
def sign : List Char → Bool × List Char
  | '-' :: cs => (true, cs)
  | '+' :: cs => (false, cs)
  | cs => (false, cs)

/-- The exponent part of a literal: nothing, or `e` with an optional sign and at least one digit. -/
def exponent? : List Char → Option Int
  | [] => some 0
  | c :: cs =>
    if c = 'e' || c = 'E' then
      let (negative, ds) := sign cs
      if !ds.isEmpty && ds.all Char.isDigit then
        some (if negative then -(exponentValue ds : Int) else exponentValue ds)
      else none
    else none

/-- Unsigned literal: digits, a point among, before or behind them, and an exponent part. -/
def read? (cs : List Char) : Option Decimal :=
  let whole := cs.takeWhile Char.isDigit
  let behind := cs.dropWhile Char.isDigit
  let (fraction, tail) := match behind with
    | '.' :: rest => (rest.takeWhile Char.isDigit, rest.dropWhile Char.isDigit)
    | rest => ([], rest)
  if whole.isEmpty && fraction.isEmpty then none
  else (exponent? tail).map fun e =>
    ⟨digitsValue (digitsValue 0 whole) fraction, e - fraction.length⟩

/-- The float of the given sign nearest to a decimal. -/
def toBinary64 (negative : Bool) (d : Decimal) : Binary64 :=
  .ofRatio negative (d.digits * Nat.pow 10 d.exponent.toNat * Binary64.one)
    (Nat.pow 10 (-d.exponent).toNat)

end Decimal

namespace Binary64

/-- Read a signed decimal literal as a finite float. -/
def read? (cs : List Char) : Option Binary64 :=
  let (negative, ds) := Decimal.sign cs
  (Decimal.read? ds).bind fun d =>
    let x := d.toBinary64 negative
    if x = infinity negative then none else some x

end Binary64

end FlatScheme
