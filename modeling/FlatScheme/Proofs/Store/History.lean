import FlatScheme.Proofs.Text.ByteOrder
import FlatScheme.Store
import Mathlib.Data.List.Induction

/-!
Environments are independent finite maps.

A history is a list of operations, the oldest first; environments are numbered in the order in which
they are made. `Holds` reads off a history what an environment binds a name to: the last binding made
in that environment itself, or else what it was given when it was made. The store answers accordingly
after every history (`get?_after_iff`), for an operation changes no environment but the one it binds a
name in (`table_perform`), and a new environment is made with the parameters laid over what the
extended one holds at that moment.
-/

namespace FlatScheme

open Text (bytes)

/-! ### Tables -/

namespace Table

/-- A parameter with a value counts in its last place; a name that is no parameter is bound as
    before. -/
theorem insertAll_cases (t : Table) (names : List String) (values : List Value) (x : String) :
    (∃ i v, names[i]? = some x ∧ values[i]? = some v ∧
        (∀ j, i < j → j < values.length → names[j]? ≠ some x) ∧
        (t.insertAll names values).get? x = some v) ∨
      ((∀ j, j < values.length → names[j]? ≠ some x) ∧
        (t.insertAll names values).get? x = t.get? x) := by
  induction names generalizing t values with
  | nil => exact .inr ⟨fun j _ => by simp, rfl⟩
  | cons y names ih =>
    cases values with
    | nil => exact .inr ⟨fun j hj => absurd hj (Nat.not_lt_zero j), rfl⟩
    | cons w values =>
      have hrest : ∀ j, (∀ k, k < values.length → names[k]? ≠ some x) →
          j + 1 < (w :: values).length → (y :: names)[j + 1]? ≠ some x := by
        intro j hother hj
        exact hother j (Nat.lt_of_succ_lt_succ hj)
      rcases ih (t.insert y w) values with ⟨i, v, hi, hv, hlast, hget⟩ | ⟨hother, hget⟩
      · refine .inl ⟨i + 1, v, hi, hv, fun j hij hj => ?_, hget⟩
        cases j with
        | zero => exact absurd hij (Nat.not_lt_zero _)
        | succ j => exact hlast j (Nat.lt_of_succ_lt_succ hij) (Nat.lt_of_succ_lt_succ hj)
      · rw [get?_insert] at hget
        by_cases hx : x = y
        · refine .inl ⟨0, w, by rw [hx]; rfl, rfl, fun j hj => ?_, hget.trans (if_pos hx)⟩
          cases j with
          | zero => exact absurd hj (Nat.lt_irrefl 0)
          | succ j => exact hrest j hother
        · refine .inr ⟨fun j => ?_, hget.trans (if_neg hx)⟩
          cases j with
          | zero => exact fun _ h => hx (Option.some.inj h).symm
          | succ j => exact hrest j hother

theorem mem_names_iff {t : Table} {x : String} : x ∈ t.names ↔ (t.get? x).isSome = true := by
  rw [get?, List.lookup_isSome_iff, names, List.mem_map]
  constructor
  · rintro ⟨p, hp, rfl⟩
    exact ⟨p, hp, beq_self_eq_true p.1⟩
  · rintro ⟨p, hp, hx⟩
    exact ⟨p, hp, (eq_of_beq hx).symm⟩

theorem names_pairwise (t : Table) : t.names.Pairwise (· < ·) :=
  List.pairwise_map.mpr t.sorted

theorem exists_of_get?_primitives {x : String} {v : Value} (h : primitives.get? x = some v) :
    ∃ p : Primitive, p.name = x ∧ Value.prim p = v := by
  have hprimitives : primitives =
      empty.insertAll (Primitive.all.map Primitive.name) (Primitive.all.map .prim) := rfl
  rw [hprimitives] at h
  obtain ⟨i, w, hi, hw, -, hget⟩ | ⟨-, hget⟩ := insertAll_cases empty _ _ x
  · obtain rfl := Option.some.inj (hget.symm.trans h)
    rw [List.getElem?_map, Option.map_eq_some_iff] at hi hw
    obtain ⟨p, hp, hname⟩ := hi
    obtain ⟨q, hq, hvalue⟩ := hw
    obtain rfl := Option.some.inj (hp.symm.trans hq)
    exact ⟨p, hname, hvalue⟩
  · rw [hget] at h
    cases h

end Table

/-! ### Histories -/

/-- What can be done with environments. -/
inductive Operation where
  | newEnv
  | newGlobal
  | bind (env : EnvId) (x : String) (v : Value)
  | extend (env : EnvId) (names : List String) (values : List Value)

/-- Does the operation make an environment? -/
def Operation.makes : Operation → Bool
  | .bind _ _ _ => false
  | _ => true

/-- How many environments a history has made, which is also the number of the next one. -/
def made (history : List Operation) : Nat := history.countP Operation.makes

namespace Store

def perform (s : Store) : Operation → Store
  | .newEnv => s.newEnv.2
  | .newGlobal => s.newGlobal.2
  | .bind env x v => s.bind env x v
  | .extend env names values => (s.extend env names values).2

/-- The store after a history. -/
def after (history : List Operation) : Store := history.foldl perform empty

theorem after_append (history ops : List Operation) :
    after (history ++ ops) = ops.foldl perform (after history) := List.foldl_append

theorem after_concat (history : List Operation) (op : Operation) :
    after (history ++ [op]) = (after history).perform op := after_append history [op]

theorem size_perform (s : Store) (op : Operation) :
    (s.perform op).tables.size = s.tables.size + if op.makes then 1 else 0 := by
  cases op <;> simp [perform, newEnv, newGlobal, extend, allocate, bind, Operation.makes]

theorem size_after (history : List Operation) : (after history).tables.size = made history := by
  induction history using List.reverseRecOn with
  | nil => rfl
  | append_singleton history op ih =>
    rw [after_concat, size_perform, ih, made, made, List.countP_append, List.countP_singleton]

/-! ### What an operation changes -/

/-- An operation changes no environment but the one it binds a name in. -/
theorem table_perform {s : Store} {env : EnvId} {op : Operation} (henv : env < s.tables.size)
    (hop : ∀ x v, op ≠ .bind env x v) : (s.perform op).table env = s.table env := by
  cases op with
  | newEnv | newGlobal | extend => exact table_allocate_of_lt s _ henv
  | bind other x v =>
    have hne : env ≠ other := fun h => hop x v (h ▸ rfl)
    rw [perform, table_bind, if_neg fun h => hne h.1]

/-- A name keeps its binding as long as it is not bound again. -/
theorem get?_perform {s : Store} {env : EnvId} {x : String} {op : Operation}
    (henv : env < s.tables.size) (hop : ∀ v, op ≠ .bind env x v) :
    ((s.perform op).table env).get? x = (s.table env).get? x := by
  by_cases h : ∃ y w, op = .bind env y w
  · obtain ⟨y, w, rfl⟩ := h
    have hxy : x ≠ y := fun h => hop w (h ▸ rfl)
    rw [perform, table_bind, if_pos ⟨rfl, henv⟩, Table.get?_insert, if_neg hxy]
  · rw [table_perform henv fun y w heq => h ⟨y, w, heq⟩]

theorem get?_foldl_perform {ops : List Operation} {s : Store} {env : EnvId} {x : String}
    (henv : env < s.tables.size) (hops : ∀ v, .bind env x v ∉ ops) :
    ((ops.foldl perform s).table env).get? x = (s.table env).get? x := by
  induction ops generalizing s with
  | nil => rfl
  | cons op ops ih =>
    have hop : ∀ v, op ≠ .bind env x v := fun v h => hops v (h ▸ List.mem_cons_self)
    have hsize : env < (s.perform op).tables.size := by
      rw [size_perform]
      exact Nat.lt_add_right _ henv
    rw [List.foldl_cons, ih hsize fun v h => hops v (List.mem_cons_of_mem op h),
      get?_perform henv hop]

end Store

/-! ### What an environment holds -/

/-- In the environment `env` the history binds `x` to `v`. -/
inductive Holds : List Operation → EnvId → String → Value → Prop
  /-- By the last binding of the name in the environment itself. -/
  | bound {before after : List Operation} {env : EnvId} {x : String} {v : Value}
      (known : env < made before) (last : ∀ w, .bind env x w ∉ after) :
      Holds (before ++ .bind env x v :: after) env x v
  /-- By the last parameter of that name for which there is a value. -/
  | parameter {before after : List Operation} {parent : EnvId} {names : List String}
      {values : List Value} {x : String} {v : Value} {i : Nat}
      (unbound : ∀ w, .bind (made before) x w ∉ after)
      (name : names[i]? = some x) (value : values[i]? = some v)
      (last : ∀ j, i < j → j < values.length → names[j]? ≠ some x) :
      Holds (before ++ .extend parent names values :: after) (made before) x v
  /-- By what the extended environment held when it was extended. -/
  | inherited {before after : List Operation} {parent : EnvId} {names : List String}
      {values : List Value} {x : String} {v : Value}
      (unbound : ∀ w, .bind (made before) x w ∉ after)
      (other : ∀ j, j < values.length → names[j]? ≠ some x) (held : Holds before parent x v) :
      Holds (before ++ .extend parent names values :: after) (made before) x v
  /-- As a primitive of a global environment. -/
  | primitive {before after : List Operation} {p : Primitive}
      (unbound : ∀ w, .bind (made before) p.name w ∉ after) :
      Holds (before ++ .newGlobal :: after) (made before) p.name (.prim p)

namespace Holds

variable {history : List Operation} {env : EnvId} {x : String} {v : Value}

/-- What is held stays so until the name is bound again. -/
theorem concat (h : Holds history env x v) {op : Operation} (hop : ∀ w, op ≠ .bind env x w) :
    Holds (history ++ [op]) env x v := by
  have hafter {after : List Operation} {env : EnvId} {x : String}
      (hop : ∀ w, op ≠ .bind env x w) (h : ∀ w, Operation.bind env x w ∉ after) :
      ∀ w, .bind env x w ∉ after ++ [op] := by
    intro w hw
    rcases List.mem_append.mp hw with hw | hw
    · exact h w hw
    · exact hop w (List.mem_singleton.mp hw).symm
  cases h with
  | bound known last =>
    rw [List.append_assoc, List.cons_append]
    exact .bound known (hafter hop last)
  | parameter unbound name value last =>
    rw [List.append_assoc, List.cons_append]
    exact .parameter (hafter hop unbound) name value last
  | inherited unbound other held =>
    rw [List.append_assoc, List.cons_append]
    exact .inherited (hafter hop unbound) other held
  | primitive unbound =>
    rw [List.append_assoc, List.cons_append]
    exact .primitive (hafter hop unbound)

end Holds

namespace Store

/-- The number of a new environment is how many there were before it. -/
theorem table_allocate_size (s : Store) (t : Table) : (s.allocate t).2.table s.tables.size = t :=
  table_allocate_self s t

/-- A new environment holds what it was made with, in a name that no later operation binds in it. -/
theorem get?_after_made {s : Store} {t : Table} {ops : List Operation} {x : String}
    (h : ∀ w, .bind s.tables.size x w ∉ ops) :
    ((ops.foldl perform (s.allocate t).2).table s.tables.size).get? x = t.get? x := by
  have hsize : s.tables.size < (s.allocate t).2.tables.size := by simp [allocate]
  rw [get?_foldl_perform hsize h, table_allocate_size]

/-- What a history says is held is what the store answers. -/
theorem get?_after_of_holds {history : List Operation} {env : EnvId} {x : String} {v : Value}
    (h : Holds history env x v) : ((after history).table env).get? x = some v := by
  induction h with
  | @bound before ops env x v known last =>
    rw [← size_after] at known
    rw [after_append, List.foldl_cons, get?_foldl_perform _ last]
    · rw [perform, table_bind, if_pos ⟨rfl, known⟩, Table.get?_insert, if_pos rfl]
    · rw [size_perform]
      exact Nat.lt_add_right _ known
  | @parameter before ops parent names values x v i unbound name value last =>
    rw [← size_after] at unbound ⊢
    rw [after_append, List.foldl_cons, perform, extend, get?_after_made unbound]
    obtain ⟨j, w, hj, hw, hlast, hget⟩ | ⟨hother, -⟩ :=
      Table.insertAll_cases ((after before).table parent) names values x
    · have hjlt : j < values.length := (List.getElem?_eq_some_iff.mp hw).1
      have hilt : i < values.length := (List.getElem?_eq_some_iff.mp value).1
      obtain rfl : i = j := by
        rcases Nat.lt_trichotomy i j with hij | hij | hij
        · exact absurd hj (last j hij hjlt)
        · exact hij
        · exact absurd name (hlast i hij hilt)
      rw [hget, ← hw, value]
    · exact absurd name (hother i (List.getElem?_eq_some_iff.mp value).1)
  | @inherited before ops parent names values x v unbound other held ih =>
    rw [← size_after] at unbound ⊢
    rw [after_append, List.foldl_cons, perform, extend, get?_after_made unbound]
    obtain ⟨j, w, hj, hw, -, -⟩ | ⟨-, hget⟩ :=
      Table.insertAll_cases ((after before).table parent) names values x
    · exact absurd hj (other j (List.getElem?_eq_some_iff.mp hw).1)
    · rw [hget, ih]
  | @primitive before ops p unbound =>
    rw [← size_after] at unbound ⊢
    rw [after_append, List.foldl_cons, perform, newGlobal, get?_after_made unbound]
    exact Table.get?_primitives p

theorem lt_size_of_get? {s : Store} {env : EnvId} {x : String} {v : Value}
    (h : (s.table env).get? x = some v) : env < s.tables.size := by
  by_contra hle
  rw [table, Array.getD_eq_getD_getElem?, Array.getElem?_eq_none (Nat.not_lt.mp hle)] at h
  cases h

/-- What an environment answers right after it was made is held by it. -/
theorem holds_of_made {history : List Operation} {x : String} {v : Value} {op : Operation}
    (ih : ∀ {env x v}, ((after history).table env).get? x = some v → Holds history env x v)
    (hop : op.makes = true)
    (h : (((after history).perform op).table (after history).tables.size).get? x = some v) :
    Holds (history ++ [op]) (made history) x v := by
  cases op with
  | bind env y w => cases hop
  | newEnv =>
    rw [perform, newEnv, table_allocate_size] at h
    cases h
  | newGlobal =>
    rw [perform, newGlobal, table_allocate_size] at h
    obtain ⟨p, rfl, rfl⟩ := Table.exists_of_get?_primitives h
    exact .primitive fun _ => List.not_mem_nil
  | extend parent names values =>
    rw [perform, extend, table_allocate_size] at h
    obtain ⟨i, w, hi, hw, hlast, hget⟩ | ⟨hother, hget⟩ :=
      Table.insertAll_cases ((after history).table parent) names values x
    · obtain rfl := Option.some.inj (hget.symm.trans h)
      exact .parameter (fun _ => List.not_mem_nil) hi hw hlast
    · rw [hget] at h
      exact .inherited (fun _ => List.not_mem_nil) hother (ih h)

/-- The store answers what the history says is held, and nothing else. -/
theorem get?_after_iff {history : List Operation} {env : EnvId} {x : String} {v : Value} :
    ((after history).table env).get? x = some v ↔ Holds history env x v := by
  refine ⟨fun h => ?_, get?_after_of_holds⟩
  induction history using List.reverseRecOn generalizing env x v with
  | nil => exact absurd (lt_size_of_get? h) (Nat.not_lt_zero env)
  | append_singleton history op ih =>
    rw [after_concat] at h
    have hlt := lt_size_of_get? h
    rw [size_perform] at hlt
    by_cases hmade : env < (after history).tables.size
    · by_cases hbind : ∃ w, op = .bind env x w
      · obtain ⟨w, rfl⟩ := hbind
        rw [perform, table_bind, if_pos ⟨rfl, hmade⟩, Table.get?_insert, if_pos rfl] at h
        obtain rfl := Option.some.inj h
        exact .bound (size_after history ▸ hmade) fun _ => List.not_mem_nil
      · have hop : ∀ w, op ≠ .bind env x w := fun w heq => hbind ⟨w, heq⟩
        rw [get?_perform hmade hop] at h
        exact (ih h).concat hop
    · -- the environment is the one that the operation has made
      have hop : op.makes = true := by
        by_contra hop
        rw [if_neg hop] at hlt
        exact hmade hlt
      obtain rfl : env = (after history).tables.size := by
        rw [if_pos hop] at hlt
        exact Nat.le_antisymm (Nat.le_of_lt_succ hlt) (Nat.not_lt.mp hmade)
      rw [size_after]
      exact holds_of_made ih hop h

/-! ### Answers -/

theorem lookup_eq_ok_iff {s : Store} {env : EnvId} {x : String} {v : Value} :
    s.lookup env x = .ok v ↔ (s.table env).get? x = some v := by
  unfold lookup
  split <;> simp_all

theorem lookup_eq_error_iff {s : Store} {env : EnvId} {x : String} :
    s.lookup env x = .error (.unbound x) ↔ ∀ v, (s.table env).get? x ≠ some v := by
  unfold lookup
  split <;> simp_all

theorem bound_iff {s : Store} {env : EnvId} {x : String} :
    s.bound env x = true ↔ ∃ v, s.lookup env x = .ok v := by
  simp only [bound, lookup_eq_ok_iff, Option.isSome_iff_exists]

/-- The answers of an environment depend on its table alone. -/
theorem answers_of_table_eq {s s' : Store} {env : EnvId} (h : s'.table env = s.table env) :
    (∀ x, s'.lookup env x = s.lookup env x ∧ s'.bound env x = s.bound env x) ∧
      s'.names env = s.names env := by
  simp only [lookup, bound, names, h, and_self, implies_true]

/-- Environments are independent finite maps. After every history an environment answers a name with
    the value that the history says it holds, or with the error that the name is unbound if there is
    none; a name is bound just if it has a value; the names are the bound ones, in strictly increasing
    order of their bytes. No operation but a binding in the environment itself changes any of this. -/
theorem environments_are_independent_maps (history : List Operation) (env : EnvId) :
    (∀ x v, (after history).lookup env x = .ok v ↔ Holds history env x v) ∧
    (∀ x, (after history).lookup env x = .error (.unbound x) ↔ ∀ v, ¬Holds history env x v) ∧
    (∀ x, (after history).bound env x = true ↔ ∃ v, (after history).lookup env x = .ok v) ∧
    (∀ x, x ∈ (after history).names env ↔ (after history).bound env x = true) ∧
    ((after history).names env).Pairwise (fun x y => bytes x < bytes y) ∧
    ∀ op, env < made history → (∀ x v, op ≠ .bind env x v) →
      (∀ x, (after (history ++ [op])).lookup env x = (after history).lookup env x ∧
        (after (history ++ [op])).bound env x = (after history).bound env x) ∧
      (after (history ++ [op])).names env = (after history).names env := by
  refine ⟨fun x v => ?_, fun x => ?_, fun x => bound_iff, fun x => Table.mem_names_iff, ?_,
    fun op henv hop => ?_⟩
  · rw [lookup_eq_ok_iff, get?_after_iff]
  · simp only [lookup_eq_error_iff, Ne, get?_after_iff]
  · exact ((after history).table env).names_pairwise.imp Text.bytes_lt_of_lt
  · rw [after_concat]
    rw [← size_after] at henv
    exact answers_of_table_eq (table_perform henv hop)

/-- An environment in which `x` is true, extended by two values for three names, the first two of which
    are the same, and after that bound anew. -/
def sampleHistory : List Operation :=
  [.newEnv, .bind 0 "x" (.bool true), .extend 0 ["y", "y", "z"] [.str "a", .nil],
    .bind 0 "x" (.bool false)]

theorem sampleHistory_answers :
    1 < made sampleHistory ∧ (∀ x v, Operation.newGlobal ≠ .bind 1 x v) ∧
    (after sampleHistory).lookup 1 "x" = .ok (.bool true) ∧
    (after sampleHistory).lookup 1 "y" = .ok .nil ∧
    (after (sampleHistory ++ [.newGlobal])).lookup 1 "x" = .ok (.bool true) := by
  have hmade : 1 < made sampleHistory := by decide
  have hop : ∀ x v, Operation.newGlobal ≠ .bind 1 x v := nofun
  have hx : Holds sampleHistory 1 "x" (.bool true) := by
    refine @Holds.inherited [.newEnv, .bind 0 "x" (.bool true)] [.bind 0 "x" (.bool false)] 0
      ["y", "y", "z"] [.str "a", .nil] "x" _ ?_ ?_ ?_
    · simp [made, Operation.makes]
    · decide
    · exact @Holds.bound [.newEnv] [] 0 "x" _ (by decide) (by simp)
  have hy : Holds sampleHistory 1 "y" .nil := by
    refine @Holds.parameter [.newEnv, .bind 0 "x" (.bool true)] [.bind 0 "x" (.bool false)] 0
      ["y", "y", "z"] [.str "a", .nil] "y" _ 1 ?_ rfl rfl ?_
    · simp [made, Operation.makes]
    · intro j hj hlt
      simp only [List.length_cons, List.length_nil] at hlt
      omega
  obtain ⟨hlookup, -, -, -, -, hframe⟩ := environments_are_independent_maps sampleHistory 1
  have hlater := ((hframe .newGlobal hmade hop).1 "x").1
  exact ⟨hmade, hop, (hlookup _ _).mpr hx, (hlookup _ _).mpr hy,
    hlater.trans ((hlookup _ _).mpr hx)⟩

end Store

end FlatScheme
