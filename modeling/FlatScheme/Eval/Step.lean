import FlatScheme.Eval.Run
import FlatScheme.Primitive

/-!
One step of evaluation.

A step looks at the outermost shape of an expression. It ends with a value, or with another
expression and environment whose value is the value of the first, to be evaluated *in tail position*:
the last form of a `begin`, the chosen branch of an `if`, the body of a called closure, and what a
`define` stands for. The parts that are not in tail position are evaluated by `sub`, which is a
parameter: evaluators differ in what they do about tails and in how deep `sub` may nest, and in
nothing else.
-/

namespace FlatScheme

/-- What a step ends with. -/
inductive Next where
  | value (v : Value)
  | tail (e : Expr) (env : EnvId)

/-- The words that make a list a special form when they stand at its head. -/
inductive Keyword where
  | begin | set | define | cond | lambda
  deriving DecidableEq, Repr

def Keyword.ofName? : String → Option Keyword
  | "begin" => some .begin
  | "set!" => some .set
  | "define" => some .define
  | "if" => some .cond
  | "lambda" => some .lambda
  | _ => none

/-- The keywords as they are spelled, in increasing order. -/
def Keyword.spellings : List String := ["begin", "define", "if", "lambda", "set!"]

namespace Eval

/-- The names of a parameter list, if it holds nothing but names. -/
def paramNames? : List Expr → Option (List String)
  | [] => some []
  | .sym x :: rest => (paramNames? rest).map (x :: ·)
  | _ :: _ => none

/-- What a procedure's body is evaluated as. -/
def bodyOf (forms : List Expr) : Expr := .list (.sym "begin" :: forms)

/-- What `(define x e)` stands for: assign, then yield the name. -/
def defineValue (x : String) (e : Expr) : Expr :=
  .list [.sym "begin", .list [.sym "set!", .sym x, e], .quoted (.sym x)]

/-- What `(define (f p …) b …)` stands for. -/
def defineProcedure (f : String) (params body : List Expr) : Expr :=
  .list [.sym "define", .sym f, .list (.sym "lambda" :: .list params :: body)]

section

variable (sub : Expr → EnvId → Run Value)

/-- Evaluate all forms but the last, which is in tail position. -/
def sequence (env : EnvId) : Expr → List Expr → Run Next
  | last, [] => return .tail last env
  | x, y :: rest => do
    let _ ← sub x env
    sequence env y rest

/-- Evaluate operands from left to right; `done` holds the values so far in reverse. -/
def operands (env : EnvId) : List Value → List Expr → Run (List Value)
  | done, [] => return done.reverse
  | done, x :: rest => do
    let v ← sub x env
    operands env (v :: done) rest

/-- Call a procedure. A closure's body runs in tail position, in a copy of the environment the closure
    was made in with the parameters bound to the arguments. -/
def call (f : Value) (args : List Value) : Run Next :=
  match f with
  | .prim p =>
    match p.apply args with
    | .ok v => return .value v
    | .error e => .fail (.primitive e.operator e.fault)
  | .broken _ name reason => .fail (.primitive name (.host reason))
  | .closure _ env params body => do
    let inner ← Run.make (·.extend env params args)
    return .tail body inner
  | v => .fail (.notProcedure v)

/-- Apply: the operator first, then the operands, and only then see whether the operator is a
    procedure. -/
def application (env : EnvId) (operator : Expr) (args : List Expr) : Run Next := do
  let f ← sub operator env
  let vs ← operands sub env [] args
  call f vs

/-- A special form; `form` is the whole of it and `parts` what follows the keyword. A form of the wrong
    shape is refused before any part of it is evaluated. -/
def special (env : EnvId) (form : Expr) : Keyword → List Expr → Run Next
  | .begin, x :: rest => sequence sub env x rest
  | .set, [.sym x, e] => do
    let v ← sub e env
    Run.assign env x v
    return .value .nil
  | .define, [.sym x, e] => return .tail (defineValue x e) env
  | .define, .list (.sym f :: params) :: b :: body =>
    return .tail (defineProcedure f params (b :: body)) env
  | .cond, [test, yes] => do
    let v ← sub test env
    return .tail (if v.isTrue then yes else .list []) env
  | .cond, [test, yes, no] => do
    let v ← sub test env
    return .tail (if v.isTrue then yes else no) env
  | .lambda, .list params :: body =>
    match paramNames? params with
    | some names => do
      let identity ← Run.make Store.newIdentity
      return .value (.closure identity env names (bodyOf body))
    | none => .fail (.invalid form)
  | _, _ => .fail (.invalid form)

/-- One step of evaluation. -/
def step (e : Expr) (env : EnvId) : Run Next :=
  match e with
  | .num n => return .value (.num n)
  | .str s => return .value (.str s)
  | .quoted d => return .value d
  | .sym x => do return .value (← Run.lookup env x)
  | .list [] => return .value .nil
  | .list (.sym x :: rest) =>
    match Keyword.ofName? x with
    | some keyword => special sub env (.list (.sym x :: rest)) keyword rest
    | none => application sub env (.sym x) rest
  | .list (operator :: args) => application sub env operator args
  | .absent => .fail (.invalid .absent)

end

end Eval

end FlatScheme
