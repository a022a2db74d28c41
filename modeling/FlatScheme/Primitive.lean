import FlatScheme.Error
import FlatScheme.Value.Equal

/-!
What the primitive procedures compute, and exactly when they refuse their arguments.

Arithmetic, booleans and string concatenation check all arguments before they compute anything.
Chained comparisons do not: they look at neighbouring arguments from the left and stop at the first
pair that is out of order, so an argument of a wrong type behind it goes unnoticed.

What several primitives have in common is told the operator that a fault is to be reported under.
-/

namespace FlatScheme.Primitive

/-- Fail unless there are at least two arguments. -/
def atLeastTwo (operator : String) (args : List Value) : Except PrimitiveError Unit :=
  if args.length < 2 then .error ⟨operator, .tooFew 2 args.length⟩ else .ok ()

/-! ### Numbers -/

/-- All arguments as numbers; the first that is none is the fault. -/
def allNumbers (operator : String) : List Value → Except PrimitiveError (List Number)
  | [] => .ok []
  | .num n :: rest => (allNumbers operator rest).map (n :: ·)
  | v :: _ => .error ⟨operator, .operand v.kind⟩

/-- Two or more numbers. -/
def numbers (operator : String) (args : List Value) : Except PrimitiveError (List Number) := do
  atLeastTwo operator args
  allNumbers operator args

/-- Combine numbers from the left. -/
def foldNumbers (f : Number → Number → Number) : List Number → Number
  | [] => .zero
  | n :: rest => rest.foldl f n

/-- An operation on two or more numbers. -/
def arithmetic (operator : String) (f : Number → Number → Number) (args : List Value) :
    Except PrimitiveError Value := do
  return .num (foldNumbers f (← numbers operator args))

/-- Divide by one number after the other; a zero among them is the fault. -/
def divideBy : Number → List Number → Except PrimitiveError Number
  | quotient, [] => .ok quotient
  | quotient, n :: rest =>
    if n.isZero then .error ⟨"/", .divisionByZero⟩ else divideBy (quotient.div n) rest

/-- True division. -/
def divide (args : List Value) : Except PrimitiveError Value := do
  match ← numbers "/" args with
  | [] => return .num .zero
  | n :: rest => return .num (← divideBy n rest)

/-- Floor quotient and remainder of exactly two numbers. -/
def floorDivide (operator : String) (args : List Value) :
    Except PrimitiveError (Number × Number) := do
  match ← numbers operator args with
  | [x, y] => if y.isZero then .error ⟨operator, .divisionByZero⟩ else .ok (x.floorQuoRem y)
  | ns => .error ⟨operator, .wrongCount 2 ns.length⟩

/-! ### Strings -/

/-- All arguments as strings; the first that is none is the fault. -/
def allStrings : List Value → Except PrimitiveError (List String)
  | [] => .ok []
  | .str s :: rest => (allStrings rest).map (s :: ·)
  | v :: _ => .error ⟨"+", .concatenation v.kind⟩

/-- Concatenate two or more strings. -/
def concatenate (args : List Value) : Except PrimitiveError Value := do
  atLeastTwo "+" args
  return .str (String.join (← allStrings args))

/-- Addition: of strings if the first argument is one, else of numbers. -/
def addition : List Value → Except PrimitiveError Value
  | .str s :: rest => concatenate (.str s :: rest)
  | args => arithmetic "+" .add args

/-! ### Booleans -/

/-- All arguments as booleans; the first that is none is the fault. -/
def allBooleans (operator : String) : List Value → Except PrimitiveError (List Bool)
  | [] => .ok []
  | .bool b :: rest => (allBooleans operator rest).map (b :: ·)
  | v :: _ => .error ⟨operator, .operand v.kind⟩

/-- A question about two or more booleans. -/
def logical (operator : String) (f : List Bool → Bool) (args : List Value) :
    Except PrimitiveError Value := do
  atLeastTwo operator args
  return .bool (f (← allBooleans operator args))

/-- Negation of the truth value of one argument of any type. -/
def negation : List Value → Except PrimitiveError Value
  | [v] => .ok (.bool !v.isTrue)
  | args => .error ⟨"not", .wrongCount 1 args.length⟩

/-! ### Comparison -/

/-- Are all other arguments equal to the first? -/
def allEqual : List Value → Except PrimitiveError Value
  | v :: w :: rest => .ok (.bool ((w :: rest).all v.equal))
  | args => .error ⟨"=", .tooFew 2 args.length⟩

/-- Are two arguments different? -/
def different : List Value → Except PrimitiveError Value
  | [v, w] => .ok (.bool !v.equal w)
  | args => .error ⟨"!=", .wrongCount 2 args.length⟩

/-- The order of two numbers or two strings. -/
def order (operator : String) : Value → Value → Except PrimitiveError Ordering
  | .num a, .num b => .ok (a.cmp b)
  | .str s, .str t => .ok (compare s t)
  | v, w => .error ⟨operator, .incomparable v.kind w.kind⟩

/-- Is the value a NaN? Every comparison with one is false. -/
def isNaN : Value → Bool
  | .num n => n.isNaN
  | _ => false

/-- Does every pair of neighbours pass the test? Looks no further than the first that does not. -/
def chain (operator : String) (test : Ordering → Bool) : List Value → Except PrimitiveError Bool
  | v :: w :: rest => do
    let c ← order operator v w
    if isNaN v || isNaN w || !test c then return false
    chain operator test (w :: rest)
  | _ => .ok true

/-- A chained comparison of two or more arguments. -/
def comparison (operator : String) (test : Ordering → Bool) (args : List Value) :
    Except PrimitiveError Value := do
  atLeastTwo operator args
  return .bool (← chain operator test args)

/-! ### The table -/

/-- Call a primitive. -/
def apply : Primitive → List Value → Except PrimitiveError Value
  | .add, args => addition args
  | .sub, args => arithmetic "-" .sub args
  | .mul, args => arithmetic "*" .mul args
  | .div, args => divide args
  | .floor, args => do return .num (← floorDivide "floor" args).1
  | .mod, args => do return .num (← floorDivide "mod" args).2
  | .and, args => logical "and" (·.all id) args
  | .or, args => logical "or" (·.any id) args
  | .not, args => negation args
  | .equal, args => allEqual args
  | .notEqual, args => different args
  | .less, args => comparison "<" Ordering.isLT args
  | .lessEqual, args => comparison "<=" Ordering.isLE args
  | .greater, args => comparison ">" Ordering.isGT args
  | .greaterEqual, args => comparison ">=" Ordering.isGE args

end FlatScheme.Primitive
