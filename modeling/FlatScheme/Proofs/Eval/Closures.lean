import FlatScheme.Proofs.Eval.Standard

/-!
The closures inside values and expressions.

A closure refers to the environment it was made in by number and is told from others by its
identity. Both numbers are handed out by the store. A store is *closed* when each closure in its
tables refers to numbers that it has handed out: there are no others in a store that was built up by
making environments, binding such values and evaluating (`Store.Closed.eval`).
-/

namespace FlatScheme

mutual

/-- The closures in a value, by identity and captured environment. A closure counts along with
    those in the quoted data of its body. -/
def Value.closures : Value → List (Nat × EnvId)
  | .pair car cdr => car.closures ++ cdr.closures
  | .closure identity env _ body => (identity, env) :: body.closures
  | _ => []

/-- The closures in the quoted data of an expression. -/
def Expr.closures : Expr → List (Nat × EnvId)
  | .quoted d => d.closures
  | .list items => Expr.closuresOfAll items
  | _ => []

/-- The closures in the quoted data of several expressions. -/
def Expr.closuresOfAll : List Expr → List (Nat × EnvId)
  | [] => []
  | e :: es => e.closures ++ Expr.closuresOfAll es

end

theorem Expr.mem_closuresOfAll {c : Nat × EnvId} {es : List Expr} :
    c ∈ closuresOfAll es ↔ ∃ e ∈ es, c ∈ e.closures := by
  induction es with
  | nil => simp [closuresOfAll]
  | cons e es ih => simp [closuresOfAll, ih]

/-- The closures of a list are those of its items. -/
theorem Expr.mem_closures_list {c : Nat × EnvId} {items : List Expr} :
    c ∈ (Expr.list items).closures ↔ ∃ e ∈ items, c ∈ e.closures := by
  rw [closures, mem_closuresOfAll]

theorem Value.closures_eq_nil : ∀ {v : Value}, v.ClosureFree → v.closures = []
  | .pair car cdr, h => by rw [closures, closures_eq_nil h.1, closures_eq_nil h.2, List.append_nil]
  | .closure _ _ _ _, h => h.elim
  | .nil, _ | .emptyPair, _ | .num _, _ | .str _, _ | .sym _, _ | .bool _, _ | .prim _, _
  | .broken _ _ _, _ => rfl

namespace Eval

/-! ### What evaluation makes of expressions -/

theorem closures_defineValue (x : String) (e : Expr) :
    (defineValue x e).closures = (Expr.list [.sym "define", .sym x, e]).closures := by
  simp [defineValue, Expr.closures, Expr.closuresOfAll, Value.closures]

theorem closures_defineProcedure (f : String) (params body : List Expr) :
    (defineProcedure f params body).closures =
      (Expr.list (.sym "define" :: .list (.sym f :: params) :: body)).closures := by
  simp [defineProcedure, Expr.closures, Expr.closuresOfAll]

theorem closures_bodyOf_subset (params body : List Expr) :
    (bodyOf body).closures ⊆ (Expr.list (.sym "lambda" :: .list params :: body)).closures := by
  simp [bodyOf, Expr.closures, Expr.closuresOfAll]

theorem closures_part_subset {items : List Expr} {e : Expr} (h : e ∈ parts items) :
    e.closures ⊆ (Expr.list items).closures := by
  intro c hc
  exact Expr.mem_closures_list.mpr ⟨e, parts_subset items h, hc⟩

end Eval

/-! ### Closed stores -/

/-- The numbers that a closure goes by have been handed out by the store. -/
structure Store.Allotted (s : Store) (c : Nat × EnvId) : Prop where
  identity : c.1 < s.nextIdentity
  env : c.2 < s.tables.size

theorem Store.Allotted.mono {s s' : Store} {c : Nat × EnvId} (hgrow : s.Grows s')
    (h : s.Allotted c) : s'.Allotted c :=
  ⟨Nat.lt_of_lt_of_le h.identity hgrow.identity, Nat.lt_of_lt_of_le h.env hgrow.size⟩

/-- All closures in all tables go by numbers that the store has handed out. -/
def Store.Closed (s : Store) : Prop :=
  ∀ env x v, (s.table env).get? x = some v → ∀ c ∈ v.closures, s.Allotted c

/-- The standard that closed stores meet. -/
def Eval.Standard.allotted : Standard where
  value s v := ∀ c ∈ v.closures, s.Allotted c
  expr s e env := env < s.tables.size ∧ ∀ c ∈ e.closures, s.Allotted c
  value_mono hgrow h c hc := (h c hc).mono hgrow
  expr_mono hgrow h := ⟨Nat.lt_of_lt_of_le h.1 hgrow.size, fun c hc => (h.2 c hc).mono hgrow⟩
  plain h c hc := by simp [Value.closures_eq_nil h.closureFree] at hc
  quoted h := h.2
  empty h := ⟨h.1, fun c hc => nomatch hc⟩
  parts h hmem := ⟨h.1, fun c hc => h.2 c (closures_part_subset hmem hc)⟩
  define h := ⟨h.1, by rw [closures_defineValue]; exact h.2⟩
  procedure h := ⟨h.1, by rw [closures_defineProcedure]; exact h.2⟩
  lambda := by
    intro s names body env h c hc
    rw [Value.closures, List.mem_cons] at hc
    rcases hc with rfl | hc
    · exact ⟨Nat.lt_succ_self _, h.1⟩
    · exact (h.2 c (closures_bodyOf_subset _ body hc)).mono (.newIdentity s)
  enter := by
    intro s i env names body t h
    refine ⟨by simp [Store.allocate], ?_⟩
    intro c hc
    exact (h c (List.mem_cons_of_mem _ hc)).mono (.allocate s t)

namespace Store.Closed

variable {s : Store}

theorem empty : Store.empty.Closed := fun _ _ _ h => nomatch h

/-- A new environment that holds no closures. -/
theorem allocate (hs : s.Closed) {t : Table} (ht : ∀ x v, t.get? x = some v → v.ClosureFree) :
    (s.allocate t).2.Closed := by
  refine Eval.Standard.Met.allocate (D := .allotted) hs ?_
  intro x v hv c hc
  simp [Value.closures_eq_nil (ht x v hv)] at hc

theorem newGlobal (hs : s.Closed) : s.newGlobal.2.Closed := by
  refine hs.allocate ?_
  intro x v hv
  rcases Table.get?_foldl_insert Primitive.name Value.prim _ _ hv with ⟨p, -, rfl⟩ | hv
  · trivial
  · cases hv

theorem bind (hs : s.Closed) (env : EnvId) (x : String) {v : Value}
    (hv : ∀ c ∈ v.closures, s.Allotted c) : (s.bind env x v).Closed :=
  Eval.Standard.Met.bind (D := .allotted) hs env x hv

theorem newIdentity (hs : s.Closed) : s.newIdentity.2.Closed :=
  Eval.Standard.Met.newIdentity (D := .allotted) hs

/-- Evaluation keeps a store closed, whatever comes of it. -/
theorem eval (hs : s.Closed) (ev : Evaluator) (fuel : Nat) {e : Expr} {env : EnvId}
    (henv : env < s.tables.size) (he : ∀ c ∈ e.closures, s.Allotted c) :
    s.Grows (ev.eval fuel e env s).2 ∧ (ev.eval fuel e env s).2.Closed := by
  have hmeets := Eval.Standard.eval_meets (D := .allotted) ev fuel hs ⟨henv, he⟩
  exact ⟨hmeets.1, hmeets.2.1⟩

end Store.Closed

end FlatScheme
