/-!
Binary floating point with 53 significant bits, as exact arithmetic followed by one rounding.

A magnitude is named by its *rank*: its place in the increasing list of all representable
magnitudes, `0` for zero, `1` for the least positive one, `2047 * 2 ^ 52` for infinity. Ranks make
the order of floats the order of integers, and "the even neighbour" the neighbour of even rank. Every
finite magnitude is a whole number of *units*, the unit being `2 ^ -1074`, so sums, products,
quotients and remainders are computed exactly on units and brought back to a rank by `roundRatio`,
to nearest with ties to the even rank. What exceeds the largest finite magnitude by half a step or
more rounds to infinity.
-/

namespace FlatScheme

/-- How many ranks there are from one power of two to the next: `2 ^ 52`. -/
abbrev binade : Nat := 0x10000000000000

/-- The rank of infinity, `2047` binades; the ranks below it name the finite magnitudes. -/
abbrev infiniteRank : Nat := 0x7ff0000000000000

/-- A float: not a number, or a sign and the rank of a magnitude (infinity included). -/
inductive Binary64 where
  | nan
  | signed (negative : Bool) (rank : Fin (infiniteRank + 1))
  deriving DecidableEq

namespace Binary64

/-! ### Ranks and units -/

/-- The integer significand of the magnitude of rank `r`. -/
def significand (r : Nat) : Nat := if r < binade then r else binade + r % binade

/-- The power of two, in units, that the significand of rank `r` is multiplied by. -/
def scale (r : Nat) : Nat := r / binade - 1

/-- The magnitude of rank `r` as a number of units of `2 ^ -1074`; infinity counts as `2 ^ 1024`. -/
def units (r : Nat) : Nat := significand r * Nat.pow 2 (scale r)

/-- How many units make one. -/
abbrev one : Nat := Nat.pow 2 1074

/-- The rank nearest to `num / den` units, ties to the even rank; `den` is positive. The quotient is
    cut to 53 bits; whether the cut-off part is more than half a step decides the last bit, and a carry
    out of the significand runs into the next power of two by itself. -/
def roundRatio (num den : Nat) : Nat :=
  let shift := (num / den).log2 - 52
  let step := den * Nat.pow 2 shift
  let low := num / step
  let rest := num % step
  let up := step < 2 * rest || (2 * rest == step && low % 2 == 1)
  min (shift * binade + low + if up then 1 else 0) infiniteRank

/-- The float of the given sign nearest to `num / den` units. -/
def ofRatio (negative : Bool) (num den : Nat) : Binary64 :=
  .signed negative ⟨roundRatio num den, Nat.lt_succ_of_le (Nat.min_le_right _ _)⟩

/-- Positive or negative zero. -/
def zero (negative : Bool) : Binary64 := .signed negative ⟨0, Nat.succ_pos _⟩

/-- Positive or negative infinity. -/
def infinity (negative : Bool) : Binary64 := .signed negative ⟨infiniteRank, Nat.lt_succ_self _⟩

/-- The float nearest to an integer; integers beyond the finite floats become infinite. -/
def ofInt (n : Int) : Binary64 := ofRatio (n < 0) (n.natAbs * one) 1

/-- A sum of units with its sign; an exact zero is positive. -/
def ofUnits (n : Int) : Binary64 := ofRatio (n < 0) n.natAbs 1

/-- The signed number of units of a finite float. -/
def signedUnits (negative : Bool) (rank : Nat) : Int :=
  if negative then -(units rank : Int) else units rank

/-! ### Order -/

def isNaN : Binary64 → Bool
  | .nan => true
  | .signed _ _ => false

/-- The place of a float in the order of the reals: both zeros at `0`, infinities at the ends. -/
def place : Binary64 → Int
  | .nan => 0
  | .signed negative rank => if negative then -(rank.val : Int) else rank.val

/-- The order of the reals. Against not-a-number the answer is `eq`: callers ask `isNaN` first. -/
def cmp (x y : Binary64) : Ordering :=
  if x.isNaN || y.isNaN then .eq else compare x.place y.place

/-! ### Arithmetic -/

def neg : Binary64 → Binary64
  | .nan => .nan
  | .signed negative rank => .signed (!negative) rank

/-- Sum; opposite infinities have none, and only two negative zeros sum to negative zero. -/
def add : Binary64 → Binary64 → Binary64
  | .signed s a, .signed t b =>
    if a.val = infiniteRank then
      if b.val = infiniteRank && s != t then .nan else .signed s a
    else if b.val = infiniteRank then .signed t b
    else if a.val = 0 && b.val = 0 then zero (s && t)
    else ofUnits (signedUnits s a.val + signedUnits t b.val)
  | _, _ => .nan

def sub (x y : Binary64) : Binary64 := add x y.neg

/-- Product; zero times infinity has none. -/
def mul : Binary64 → Binary64 → Binary64
  | .signed s a, .signed t b =>
    if a.val = infiniteRank || b.val = infiniteRank then
      if a.val = 0 || b.val = 0 then .nan else infinity (s != t)
    else ofRatio (s != t) (units a.val * units b.val) one
  | _, _ => .nan

/-- Quotient; zero by zero and infinity by infinity have none. -/
def div : Binary64 → Binary64 → Binary64
  | .signed s a, .signed t b =>
    if a.val = infiniteRank then
      if b.val = infiniteRank then .nan else infinity (s != t)
    else if b.val = infiniteRank then zero (s != t)
    else if b.val = 0 then
      if a.val = 0 then .nan else infinity (s != t)
    else ofRatio (s != t) (units a.val * one) (units b.val)
  | _, _ => .nan

/-- Exact remainder of the division toward zero, with the sign of the dividend. -/
def remainder : Binary64 → Binary64 → Binary64
  | .signed s a, .signed _ b =>
    if a.val = infiniteRank || b.val = 0 then .nan
    else if b.val = infiniteRank then .signed s a
    else ofRatio s (units a.val % units b.val) 1
  | _, _ => .nan

/-- The integer part of a finite float. -/
def truncate? : Binary64 → Option Int
  | .nan => none
  | .signed negative rank =>
    if rank.val = infiniteRank then none
    else some (if negative then -((units rank.val / one : Nat) : Int) else (units rank.val / one : Nat))

end Binary64

end FlatScheme
