import FlatScheme.Value.Printer

/-!
What can go wrong in evaluation, as causes. The wording of every message is in `message`.
-/

namespace FlatScheme

/-- Why a primitive refuses its arguments. -/
inductive PrimitiveFault where
  | tooFew (least got : Nat)
  | wrongCount (expected got : Nat)
  | operand (kind : Kind)
  | concatenation (kind : Kind)
  | incomparable (left right : Kind)
  | divisionByZero
  /-- A host procedure failed on its own account. -/
  | host (reason : String)
  deriving DecidableEq

def PrimitiveFault.message : PrimitiveFault → String
  | .tooFew least got =>
    "expects at least " ++ toString least ++ " arguments, got " ++ toString got
  | .wrongCount expected got =>
    "expects " ++ toString expected ++ (if expected = 1 then " argument" else " arguments") ++
      ", got " ++ toString got
  | .operand kind => "unsupported operand type " ++ kind.name
  | .concatenation kind => "can only concatenate string (not " ++ kind.name ++ ") to string"
  | .incomparable left right =>
    "not supported between instances of " ++ left.name ++ " and " ++ right.name
  | .divisionByZero => "division by zero"
  | .host reason => reason

/-- What a primitive reports: the operator it stands for, and why it refuses its arguments. -/
structure PrimitiveError where
  operator : String
  fault : PrimitiveFault
  deriving DecidableEq

/-- Why an evaluation has no value. -/
inductive EvalError where
  | unbound (name : String)
  /-- A form without a recognised shape. -/
  | invalid (form : Expr)
  | notProcedure (value : Value)
  | primitive (operator : String) (fault : PrimitiveFault)
  /-- More than `limit` evaluations were nested. -/
  | depth (limit : Nat)

def EvalError.message : EvalError → String
  | .unbound name => "unbound variable: " ++ name
  | .invalid form => "invalid expression: " ++ form.text
  | .notProcedure value => "not a procedure: " ++ value.text
  | .primitive operator fault => operator ++ ": " ++ fault.message
  | .depth limit => "maximum recursion depth " ++ toString limit ++ " exceeded"

end FlatScheme
