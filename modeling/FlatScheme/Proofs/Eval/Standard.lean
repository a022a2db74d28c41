import FlatScheme.Proofs.Eval.Simulation

/-!
What every value keeps that an evaluation handles.

A `Standard` is a condition on values, relative to the store they live in, and on the expressions
that may be evaluated. Its laws say that an evaluator can only make values that meet the standard
out of values and expressions that meet it. A store meets the standard when all values in its tables
do.

A standard is a simulation of an evaluation by itself (`Standard.simulation`), so evaluations keep
it along with everything else that simulations carry (`Standard.eval_meets`).
-/

namespace FlatScheme

theorem Table.get?_insertAll {t : Table} {names : List String} {values : List Value} {x : String}
    {v : Value} (h : (t.insertAll names values).get? x = some v) :
    v ∈ values ∨ t.get? x = some v := by
  rcases get?_foldl_insert Prod.fst Prod.snd _ t h with ⟨p, hp, rfl⟩ | h
  · exact .inl (List.of_mem_zip hp).2
  · exact .inr h

theorem Store.table_allocate (s : Store) (t : Table) (env : EnvId) :
    (s.allocate t).2.table env = if env = s.tables.size then t else s.table env := by
  split
  · next h => exact h ▸ table_allocate_self s t
  · next h => exact table_allocate_of_ne s t h

namespace Eval

/-- A condition on values, and on expressions together with the environment they are evaluated in,
    that evaluators keep. -/
structure Standard where
  value : Store → Value → Prop
  expr : Store → Expr → EnvId → Prop
  value_mono {s s' : Store} {v : Value} : s.Grows s' → value s v → value s' v
  expr_mono {s s' : Store} {e : Expr} {env : EnvId} : s.Grows s' → expr s e env → expr s' e env
  plain {s : Store} {v : Value} : v.IsAtom → value s v
  quoted {s : Store} {d : Value} {env : EnvId} : expr s (.quoted d) env → value s d
  empty {s : Store} {e : Expr} {env : EnvId} : expr s e env → expr s (.list []) env
  parts {s : Store} {items : List Expr} {e : Expr} {env : EnvId} :
    expr s (.list items) env → e ∈ Eval.parts items → expr s e env
  define {s : Store} {x : String} {e : Expr} {env : EnvId} :
    expr s (.list [.sym "define", .sym x, e]) env → expr s (defineValue x e) env
  procedure {s : Store} {f : String} {params body : List Expr} {env : EnvId} :
    expr s (.list (.sym "define" :: .list (.sym f :: params) :: body)) env →
      expr s (defineProcedure f params body) env
  lambda {s : Store} {names : List String} {body : List Expr} {env : EnvId} :
    expr s (.list (.sym "lambda" :: .list (names.map .sym) :: body)) env →
      value s.newIdentity.2 (.closure s.nextIdentity env names (bodyOf body))
  enter {s : Store} {i : Nat} {env : EnvId} {names : List String} {body : Expr} (t : Table) :
    value s (.closure i env names body) → expr (s.allocate t).2 body s.tables.size

namespace Standard

variable (D : Standard)

/-- All values in the tables of the store meet the standard. -/
def Met (s : Store) : Prop := ∀ env x v, (s.table env).get? x = some v → D.value s v

variable {D} {s s' : Store}

theorem Met.bind (hs : D.Met s) (env : EnvId) (x : String) {v : Value} (hv : D.value s v) :
    D.Met (s.bind env x v) := by
  intro env' y w hw
  refine D.value_mono (.bind s env x v) ?_
  rw [Store.table_bind] at hw
  split at hw
  · rw [Table.get?_insert] at hw
    split at hw
    · exact Option.some.inj hw ▸ hv
    · exact hs env y w hw
  · exact hs env' y w hw

theorem Met.allocate (hs : D.Met s) {t : Table} (ht : ∀ x v, t.get? x = some v → D.value s v) :
    D.Met (s.allocate t).2 := by
  intro env x v hv
  refine D.value_mono (.allocate s t) ?_
  rw [Store.table_allocate] at hv
  split at hv
  · exact ht x v hv
  · exact hs env x v hv

theorem Met.extend (hs : D.Met s) (env : EnvId) (names : List String) {values : List Value}
    (hvalues : ∀ v ∈ values, D.value s v) : D.Met (s.extend env names values).2 := by
  refine hs.allocate ?_
  intro x v hv
  rcases Table.get?_insertAll hv with hv | hv
  · exact hvalues v hv
  · exact hs env x v hv

theorem Met.newIdentity (hs : D.Met s) : D.Met s.newIdentity.2 := by
  intro env x v hv
  exact D.value_mono (.newIdentity s) (hs env x v hv)

/-- Values that are the same on both sides and meet the standard. -/
theorem forall₂_same {good : Value → Prop} {vs vs' : List Value}
    (h : List.Forall₂ (fun v v' => v = v' ∧ good v) vs vs') : vs = vs' ∧ ∀ v ∈ vs, good v := by
  induction h with
  | nil => exact ⟨rfl, fun v hv => nomatch hv⟩
  | cons h _ ih =>
    obtain ⟨rfl, hgood⟩ := h
    obtain ⟨rfl, hall⟩ := ih
    exact ⟨rfl, List.forall_mem_cons.mpr ⟨hgood, hall⟩⟩

variable (D)

/-- An evaluation beside itself. -/
def simulation : Simulation where
  store w := w.left = w.right ∧ D.Met w.left
  value w v v' := v = v' ∧ D.value w.left v
  expr w e a b := a = b ∧ D.expr w.left e a
  value_mono hgrow h := ⟨h.1, D.value_mono hgrow.left h.2⟩
  expr_mono hgrow h := ⟨h.1, D.expr_mono hgrow.left h.2⟩
  plain h := ⟨rfl, D.plain h⟩
  isTrue h := by rw [h.1]
  apply p h := by rw [(forall₂_same h).1]
  call := by
    rintro ⟨s, t⟩ f _ ⟨hst, hs⟩ ⟨rfl, hf⟩
    obtain rfl : s = t := hst
    cases f with
    | prim p => exact .prim p
    | broken i name reason => exact .broken i i name reason
    | closure i env names body =>
      refine .closure i i ?_
      intro vs _ hvs
      obtain ⟨rfl, hgood⟩ := forall₂_same hvs
      exact ⟨⟨rfl, hs.extend env names hgood⟩, rfl, D.enter _ hf⟩
    | _ => exact .other nofun nofun
  quoted h := ⟨rfl, D.quoted h.2⟩
  lookup := by
    rintro ⟨s, t⟩ x a _ ⟨hst, hs⟩ ⟨rfl, -⟩
    obtain rfl : s = t := hst
    cases hx : (s.table a).get? x with
    | none => exact .none
    | some v => exact .some ⟨rfl, hs a x v hx⟩
  empty h := ⟨h.1, D.empty h.2⟩
  parts h hmem := ⟨h.1, D.parts h.2 hmem⟩
  bind := by
    rintro ⟨s, t⟩ x e a _ v _ ⟨hst, hs⟩ ⟨rfl, -⟩ ⟨rfl, hv⟩
    obtain rfl : s = t := hst
    exact ⟨rfl, hs.bind a x hv⟩
  define h := ⟨h.1, D.define h.2⟩
  procedure h := ⟨h.1, D.procedure h.2⟩
  lambda := by
    rintro ⟨s, t⟩ names body a _ ⟨hst, hs⟩ ⟨rfl, he⟩
    obtain rfl : s = t := hst
    exact ⟨⟨rfl, hs.newIdentity⟩, rfl, D.lambda he⟩

variable {D} {e : Expr} {env : EnvId}

/-- An evaluation on a store that meets the standard leaves one that does, and so does its
    value. -/
theorem eval_meets (ev : Evaluator) (fuel : Nat) (hs : D.Met s) (he : D.expr s e env) :
    s.Grows (ev.eval fuel e env s).2 ∧ D.Met (ev.eval fuel e env s).2 ∧
      ∀ v, (ev.eval fuel e env s).1 = .ok v → D.value (ev.eval fuel e env s).2 v := by
  have hends := D.simulation.eval_carries ev fuel (w := ⟨s, s⟩) ⟨rfl, hs⟩ ⟨rfl, he⟩
  refine ⟨hends.grow.left, hends.store.2, ?_⟩
  intro v hv
  have houtcome := hends.outcome
  rw [hv] at houtcome
  cases houtcome with
  | ok h => exact h.2

end Standard

end Eval

end FlatScheme
