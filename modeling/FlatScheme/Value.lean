import FlatScheme.Number

/-!
The two kinds of tree the language works with: *expressions*, which are read and evaluated, and
*values*, which evaluation yields.

Each contains the other. A quoted expression holds a value, and a closure is a value that holds the
expression of its body together with the name of the environment it was made in. Environments are
referred to by number, so values stay finite trees even when an environment holds a closure over
itself; `FlatScheme.Store` maps the numbers to tables.

There are two empty lists among the values, `nil` and `emptyPair`. They are told apart by nothing
the language offers; `emptyPair` is the empty list that a host program builds as a pair.
-/

namespace FlatScheme

/-- The name of an environment in a store. -/
abbrev EnvId := Nat

/-- The procedures every global environment starts with. -/
inductive Primitive where
  | add | sub | mul | div | floor | mod
  | and | or | not
  | equal | notEqual | less | lessEqual | greater | greaterEqual
  deriving DecidableEq, Repr

namespace Primitive

/-- The name a primitive is bound to. -/
def name : Primitive → String
  | .add => "+" | .sub => "-" | .mul => "*" | .div => "/" | .floor => "floor" | .mod => "mod"
  | .and => "and" | .or => "or" | .not => "not"
  | .equal => "=" | .notEqual => "!=" | .less => "<" | .lessEqual => "<="
  | .greater => ">" | .greaterEqual => ">="

/-- Every primitive, once. -/
def all : List Primitive :=
  [.add, .sub, .mul, .div, .floor, .mod, .and, .or, .not,
   .equal, .notEqual, .less, .lessEqual, .greater, .greaterEqual]

end Primitive

mutual

/-- What evaluation yields. Closures and broken procedures carry an identity, and are the same
    procedure only if they share it. -/
inductive Value where
  | nil
  | emptyPair
  | pair (car cdr : Value)
  | num (n : Number)
  | str (s : String)
  | sym (name : String)
  | bool (b : Bool)
  | prim (p : Primitive)
  /-- A host procedure that fails with `reason` whenever it is called. -/
  | broken (identity : Nat) (name reason : String)
  | closure (identity : Nat) (env : EnvId) (params : List String) (body : Expr)

/-- What is evaluated. `absent` is the lack of an expression: it is written like the empty list, but
    has no value. -/
inductive Expr where
  | absent
  | num (n : Number)
  | str (s : String)
  | sym (name : String)
  | quoted (datum : Value)
  | list (items : List Expr)

end

instance : Inhabited Value := ⟨.nil⟩

instance : Inhabited Expr := ⟨.absent⟩

namespace Value

/-- The proper list of the given elements. -/
def ofList (vs : List Value) : Value := vs.foldr .pair .nil

/-- Is the value an empty list, of either kind? -/
def isEmpty : Value → Bool
  | .nil => true
  | .emptyPair => true
  | _ => false

/-- The elements of a list; the tail of an improper list counts as its last element. -/
def elements : Value → List Value
  | .nil => []
  | .emptyPair => []
  | .pair car cdr => car :: elements cdr
  | v => [v]

/-- The truth value: false, zero, the empty string and the empty list are false, all else is true. -/
def isTrue : Value → Bool
  | .nil => false
  | .emptyPair => false
  | .bool b => b
  | .num n => !n.isZero
  | .str s => s != ""
  | _ => true

end Value

/-- The types that the language's messages speak of. -/
inductive Kind where
  | list | number | string | symbol | boolean | procedure
  deriving DecidableEq, Repr

def Kind.name : Kind → String
  | .list => "list"
  | .number => "number"
  | .string => "string"
  | .symbol => "symbol"
  | .boolean => "boolean"
  | .procedure => "procedure"

def Value.kind : Value → Kind
  | .nil | .emptyPair | .pair _ _ => .list
  | .num _ => .number
  | .str _ => .string
  | .sym _ => .symbol
  | .bool _ => .boolean
  | .prim _ | .broken _ _ _ | .closure _ _ _ _ => .procedure

namespace Expr

mutual

/-- The value an expression denotes when it is quoted. A quote inside becomes the list
    `(quote datum)`, except that booleans, which are quoted by nature, stay themselves. -/
def datum : Expr → Value
  | .absent => .nil
  | .num n => .num n
  | .str s => .str s
  | .sym x => .sym x
  | .quoted (.bool b) => .bool b
  | .quoted d => .pair (.sym "quote") (.pair d .nil)
  | .list items => datumList items

/-- The proper list of the data of a list of expressions. -/
def datumList : List Expr → Value
  | [] => .nil
  | x :: xs => .pair (datum x) (datumList xs)

end

end Expr

end FlatScheme
