import FlatScheme.Value

/-!
Structural equality of values.

The two empty lists are equal. Numbers are compared by value, whatever their form, and not-a-number
equals nothing, itself included. Pairs are equal when their parts are, and procedures only when they
are the same procedure.
-/

namespace FlatScheme

/-- Equality of numbers by value; false against a NaN. -/
def Number.equal (a b : Number) : Bool := !a.isNaN && !b.isNaN && a.cmp b == .eq

/-- Structural equality. -/
def Value.equal : Value → Value → Bool
  | .nil, w => w.isEmpty
  | .emptyPair, w => w.isEmpty
  | .pair a d, .pair a' d' => a.equal a' && d.equal d'
  | .num m, .num n => m.equal n
  | .str s, .str t => s == t
  | .sym x, .sym y => x == y
  | .bool b, .bool c => b == c
  | .prim p, .prim q => p == q
  | .broken i _ _, .broken j _ _ => i == j
  | .closure i _ _ _, .closure j _ _ _ => i == j
  | _, _ => false

end FlatScheme
