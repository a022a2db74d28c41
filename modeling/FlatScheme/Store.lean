import FlatScheme.Error
import FlatScheme.Store.Table

/-!
The store: every environment made so far, and the supply of procedure identities.

An environment is one flat table. Extending an environment copies its table under a new number and
binds names in the copy, so no later change to one of the two is seen in the other.
-/

namespace FlatScheme

/-- Environments by number, and the next unused procedure identity. -/
structure Store where
  tables : Array Table
  nextIdentity : Nat
  deriving Inhabited

namespace Store

/-- No environments yet. -/
def empty : Store := ⟨#[], 0⟩

/-- The table of an environment; a number never handed out has an empty one. -/
def table (s : Store) (env : EnvId) : Table := s.tables.getD env .empty

/-- Make an environment with the given table. -/
def allocate (s : Store) (t : Table) : EnvId × Store :=
  (s.tables.size, { s with tables := s.tables.push t })

/-- Make an environment without bindings. -/
def newEnv (s : Store) : EnvId × Store := s.allocate .empty

/-- Make an environment that holds the primitives. -/
def newGlobal (s : Store) : EnvId × Store := s.allocate .primitives

/-- Take an identity for a new procedure. -/
def newIdentity (s : Store) : Nat × Store :=
  (s.nextIdentity, { s with nextIdentity := s.nextIdentity + 1 })

/-- The value of a name, or the error that it has none. -/
def lookup (s : Store) (env : EnvId) (x : String) : Except EvalError Value :=
  match (s.table env).get? x with
  | some v => .ok v
  | none => .error (.unbound x)

/-- Has the name a binding? -/
def bound (s : Store) (env : EnvId) (x : String) : Bool := ((s.table env).get? x).isSome

/-- Bind a name in an environment. -/
def bind (s : Store) (env : EnvId) (x : String) (v : Value) : Store :=
  { s with tables := s.tables.modify env (·.insert x v) }

/-- Make a copy of an environment with names bound to values in it. -/
def extend (s : Store) (env : EnvId) (names : List String) (values : List Value) : EnvId × Store :=
  s.allocate ((s.table env).insertAll names values)

/-! ### What becomes of the tables -/

/-- Binding changes the table of its environment and no other. -/
theorem table_bind (s : Store) (env other : EnvId) (x : String) (v : Value) :
    (s.bind env x v).table other =
      if other = env ∧ env < s.tables.size then (s.table env).insert x v else s.table other := by
  simp only [table, bind, Array.getD_eq_getD_getElem?, Array.getElem?_modify]
  by_cases h : env = other
  · subst h
    by_cases hlt : env < s.tables.size <;> simp [hlt]
  · simp [h, Ne.symm h]

/-- A new environment has the table it was made with. -/
theorem table_allocate_self (s : Store) (t : Table) : (s.allocate t).2.table (s.allocate t).1 = t := by
  simp [allocate, table]

/-- Making an environment leaves the older ones as they were. -/
theorem table_allocate_of_lt (s : Store) (t : Table) {env : EnvId} (h : env < s.tables.size) :
    (s.allocate t).2.table env = s.table env := by
  simp [allocate, table, Array.getElem?_push, Nat.ne_of_lt h]

/-! ### Names -/

/-- The names bound in an environment, in increasing order. -/
def names (s : Store) (env : EnvId) : List String := (s.table env).names

/-- The bindings of an environment other than a primitive under its own name, as texts. -/
def listing (s : Store) (env : EnvId) : List (String × String) :=
  (s.table env).entries.filterMap fun p =>
    match p.2 with
    | .prim q => if q.name = p.1 then none else some (p.1, p.2.text)
    | v => some (p.1, v.text)

end Store

end FlatScheme
