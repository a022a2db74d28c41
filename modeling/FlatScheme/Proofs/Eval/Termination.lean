import FlatScheme.Proofs.Eval.Agreement
import FlatScheme.Proofs.Eval.Depth
import FlatScheme.Proofs.Eval.Standard
import Mathlib.Algebra.Order.BigOperators.Group.List
import Mathlib.Algebra.Order.Ring.Nat
import Mathlib.Tactic.Ring

/-!
The nested evaluator ends.

Whatever the program, an evaluation makes calls with one level less than it has left, at most one for
each item of the list it looks at and one for the tail. No list that turns up in a run is longer than
those in the program and in the store at its start, apart from what a `define` stands for, which has
three items. So an evaluation takes at most `(width + 2) ^ limit` evaluations, also where the
trampoline would loop for ever.

A loop can end in no other way than by the depth error: a step makes no such error by itself
(`step_short`), and what the nested evaluator settles the trampoline settles as well.
-/

namespace FlatScheme

/-! ### The longest list -/

mutual

/-- The length of the longest list in the bodies of the closures in a value. -/
def Value.width : Value → Nat
  | .pair car cdr => max car.width cdr.width
  | .closure _ _ _ body => body.width
  | _ => 0

/-- The length of the longest list in an expression, quoted data included. -/
def Expr.width : Expr → Nat
  | .quoted d => d.width
  | .list items => max items.length (Expr.widthOfAll items)
  | _ => 0

/-- The length of the longest list in some expressions. -/
def Expr.widthOfAll : List Expr → Nat
  | [] => 0
  | e :: es => max e.width (Expr.widthOfAll es)

end

theorem Value.width_eq_zero : ∀ {v : Value}, v.ClosureFree → v.width = 0
  | .pair car cdr, h => by rw [width, width_eq_zero h.1, width_eq_zero h.2, Nat.max_self]
  | .closure _ _ _ _, h => h.elim
  | .nil, _ | .emptyPair, _ | .num _, _ | .str _, _ | .sym _, _ | .bool _, _ | .prim _, _
  | .broken _ _ _, _ => rfl

theorem Expr.width_le_widthOfAll {e : Expr} {es : List Expr} (h : e ∈ es) :
    e.width ≤ widthOfAll es := by
  induction es with
  | nil => cases h
  | cons x es ih =>
    rw [widthOfAll]
    rcases List.mem_cons.mp h with rfl | h
    · exact Nat.le_max_left _ _
    · exact Nat.le_trans (ih h) (Nat.le_max_right _ _)

theorem Expr.length_le_width (items : List Expr) : items.length ≤ (Expr.list items).width := by
  rw [width]
  exact Nat.le_max_left _ _

/-- The width of the widest value in a table. -/
def Table.width (t : Table) : Nat := Eval.largest (t.entries.map (·.2.width))

/-- The width of the widest value in a store. -/
def Store.width (s : Store) : Nat := Eval.largest (s.tables.toList.map Table.width)

theorem Table.width_le {t : Table} {x : String} {v : Value} (h : t.get? x = some v) :
    v.width ≤ t.width := by
  obtain ⟨before, after, hentries, -⟩ := List.lookup_eq_some_iff.mp h
  refine Eval.le_largest (List.mem_map.mpr ⟨(x, v), ?_, rfl⟩)
  simp [hentries]

theorem Store.width_le {s : Store} {env : EnvId} {x : String} {v : Value}
    (h : (s.table env).get? x = some v) : v.width ≤ s.width := by
  have henv : env < s.tables.size := by
    by_contra hge
    simp [table, Nat.not_lt.mp hge] at h
  have htable : s.table env ∈ s.tables.toList := by simp [table, henv]
  exact Nat.le_trans (Table.width_le h) (Eval.le_largest (List.mem_map_of_mem htable))

namespace Eval

theorem width_defineValue_le (x : String) (e : Expr) :
    (defineValue x e).width ≤ max 3 (Expr.list [.sym "define", .sym x, e]).width := by
  simp [defineValue, Expr.width, Expr.widthOfAll, Value.width]

theorem width_defineProcedure_le (f : String) (params body : List Expr) :
    (defineProcedure f params body).width ≤
      max 3 (Expr.list (.sym "define" :: .list (.sym f :: params) :: body)).width := by
  simp only [defineProcedure, Expr.width, Expr.widthOfAll, List.length_cons, List.length_nil]
  omega

theorem width_bodyOf_le (params body : List Expr) :
    (bodyOf body).width ≤ (Expr.list (.sym "lambda" :: .list params :: body)).width := by
  simp only [bodyOf, Expr.width, Expr.widthOfAll, List.length_cons]
  omega

theorem width_part_le {items : List Expr} {e : Expr} (h : e ∈ parts items) :
    e.width ≤ (Expr.list items).width := by
  rw [Expr.width]
  exact Nat.le_trans (Expr.width_le_widthOfAll (parts_subset items h)) (Nat.le_max_right _ _)

/-- Nothing is wider than `n`, which leaves room for what a `define` stands for. -/
def Standard.narrow (n : Nat) (hn : 3 ≤ n) : Standard where
  value _ v := v.width ≤ n
  expr _ e _ := e.width ≤ n
  value_mono _ h := h
  expr_mono _ h := h
  plain h := Nat.le_trans (Nat.le_of_eq (Value.width_eq_zero h.closureFree)) (Nat.zero_le n)
  quoted h := by rwa [Expr.width] at h
  empty _ := Nat.zero_le n
  parts h hmem := Nat.le_trans (width_part_le hmem) h
  define h := Nat.le_trans (width_defineValue_le _ _) (Nat.max_le.mpr ⟨hn, h⟩)
  procedure h := Nat.le_trans (width_defineProcedure_le _ _ _) (Nat.max_le.mpr ⟨hn, h⟩)
  lambda h := by
    rw [Value.width]
    exact Nat.le_trans (width_bodyOf_le _ _) h
  enter _ h := by rwa [Value.width] at h

/-! ### What a step can do -/

namespace Dialogue

/-- At most `n` calls, and no end of its own that a limit could have caused. -/
inductive Short : Nat → Dialogue → Prop
  | done {n : Nat} {r : Outcome Next × Store} (h : r.1.Settled) : Short n (.done r)
  | ask {n : Nat} {c : Call} {k : Value → Store → Dialogue} (h : ∀ v s, Short n (k v s)) :
      Short (n + 1) (.ask c k)

variable {sub : Expr → EnvId → Run Value} {d : Dialogue} {m n : Nat}

theorem Short.mono (h : d.Short m) (hle : m ≤ n) : d.Short n := by
  induction h generalizing n with
  | done h => exact .done h
  | ask _ ih =>
    obtain ⟨n, rfl⟩ : ∃ k, n = k + 1 := ⟨n - 1, by omega⟩
    exact .ask fun v s => ih v s (Nat.le_of_succ_le_succ hle)

theorem Short.length_asked_le (h : d.Short n) : (d.asked sub).length ≤ n := by
  induction h with
  | done h => exact Nat.zero_le _
  | @ask n c k _ ih =>
    rcases hc : c.answer sub with ⟨v | e | _, s⟩
    · simpa [asked, hc] using ih v s
    · simp [asked, hc]
    · simp [asked, hc]

theorem sequence_short (env : EnvId) (x : Expr) (rest : List Expr) (s : Store) :
    (sequence env x rest s).Short rest.length := by
  induction rest generalizing x s with
  | nil => exact .done trivial
  | cons y rest ih => exact .ask fun v s' => ih y s'

theorem call_settled (f : Value) (vs : List Value) (s : Store) : (call f vs s).1.Settled := by
  cases f with
  | prim p =>
    simp only [call]
    cases p.apply vs with
    | ok v => trivial
    | error e => exact id
  | closure => trivial
  | _ => exact id

theorem operands_short (env : EnvId) (f : Value) (rest : List Expr) (values : List Value)
    (s : Store) : (operands env f values rest s).Short rest.length := by
  induction rest generalizing values s with
  | nil => exact .done (call_settled f values.reverse s)
  | cons x rest ih => exact .ask fun v s' => ih (v :: values) s'

theorem shaped_short {items : List Expr} (h : Shaped items) (env : EnvId) (s : Store) :
    (step (.list items) env s).Short items.length := by
  cases h with
  | begin x rest =>
    exact (sequence_short env x rest s).mono (by rw [List.length_cons, List.length_cons]; omega)
  | set x e => exact .ask fun v s' => .done trivial
  | define x e => exact .done trivial
  | procedure f params b body => exact .done trivial
  | cond test yes no =>
    rw [step_cond]
    exact .ask fun v s' => .done trivial
  | lambda names body =>
    rw [step_lambda]
    exact .done trivial

/-- A step makes at most as many calls as the list it looks at has items, and it raises no depth
    error of its own. -/
theorem step_short (e : Expr) (env : EnvId) (s : Store) : (step e env s).Short e.width := by
  cases e with
  | sym x =>
    refine .done ?_
    simp only [Eval.step, Bind.bind, Run.bind, Run.lookup, Store.lookup]
    cases (s.table env).get? x with
    | some v => trivial
    | none => exact id
  | absent => exact .done id
  | list items =>
    refine Short.mono ?_ (Expr.length_le_width items)
    cases items with
    | nil => exact .done trivial
    | cons operator args =>
      by_cases hop : ∃ k ∈ Keyword.spellings, operator = .sym k
      · obtain ⟨k, hk, rfl⟩ := hop
        by_cases hshaped : Shaped (.sym k :: args)
        · exact shaped_short hshaped env s
        · rw [step_invalid hk hshaped]
          exact .done id
      · rw [step_application fun k hk h => hop ⟨k, hk, h⟩]
        exact .ask fun f s' => operands_short env f args [] s'
  | _ => exact .done trivial

end Dialogue

/-! ### How an evaluation ends -/

/-- The only limit that shows in an answer is the limit on depth, by its error. -/
def OnlyDepth (limit : Nat) (sub : Expr → EnvId → Run Value) : Prop :=
  ∀ e env s, (sub e env s).1.Settled ∨ (sub e env s).1 = .error (.depth limit)

variable {limit : Nat} {sub : Expr → EnvId → Run Value}

theorem Dialogue.Short.run_cases {d : Dialogue} {n : Nat} (h : d.Short n)
    (hsub : OnlyDepth limit sub) :
    (d.run sub).1.Settled ∨ (d.run sub).1 = .error (.depth limit) := by
  induction h with
  | done h => exact .inl h
  | @ask n c k _ ih =>
    have hc := hsub c.expr c.env c.store
    simp only [run, Call.answer]
    generalize sub c.expr c.env c.store = r at hc ⊢
    obtain ⟨o, s⟩ := r
    cases o with
    | ok v => exact ih v s
    | error x => exact hc.imp id fun hx => congrArg Outcome.error (Outcome.error.inj hx)
    | outOfFuel =>
      rcases hc with hc | hc
      · exact .inl hc
      · cases hc

/-- The nested evaluator ends, and if not by itself then by the depth error. -/
theorem nested_onlyDepth (limit remaining : Nat) : OnlyDepth limit (nested limit remaining) := by
  induction remaining with
  | zero =>
    intro e env s
    exact .inr rfl
  | succ remaining ih =>
    intro e env s
    rw [nested_succ, step_eq_run]
    have hstep := (Dialogue.step_short e env s).run_cases ih
    generalize (Dialogue.step e env s).run (nested limit remaining) = r at hstep ⊢
    rcases r with ⟨(v | ⟨e', env'⟩) | x | _, s'⟩
    · exact .inl trivial
    · exact ih e' env' s'
    · exact hstep.imp id fun hx => congrArg Outcome.error (Outcome.error.inj hx)
    · rcases hstep with hstep | hstep
      · exact .inl hstep
      · cases hstep

/-! ### How many evaluations it takes -/

/-- The number of evaluations that an evaluation with `remaining` levels left takes, itself
    included. -/
def evaluations (limit : Nat) : (remaining : Nat) → Call → Nat
  | 0, _ => 1
  | remaining + 1, c =>
    1 + ((nestedCalls (nested limit remaining) c.expr c.env c.store).map
      (evaluations limit remaining)).sum

/-- The evaluations inside one that meets a standard meet it too. -/
theorem Standard.met_of_mem_nestedCalls {D : Standard} {e : Expr} {env : EnvId} {s : Store}
    (hs : D.Met s) (he : D.expr s e env) {limit remaining : Nat} {c : Call}
    (hc : c ∈ nestedCalls (nested limit remaining) e env s) :
    D.Met c.store ∧ D.expr c.store c.expr c.env := by
  have hcarries : D.simulation.Carries (nested limit remaining) :=
    D.simulation.nested_carries limit remaining
  have hstore : D.simulation.store ⟨s, s⟩ := ⟨rfl, hs⟩
  have hexpr : D.simulation.expr ⟨s, s⟩ e env env := ⟨rfl, he⟩
  rcases List.mem_append.mp hc with hc | hc
  · obtain ⟨c', hmet, hplace⟩ := (Simulation.step_lockstep hstore hexpr).mem_asked hcarries hc
    exact ⟨hmet.2, hplace.2⟩
  · have hends := Simulation.step_ends hcarries hstore hexpr
    simp only at hends
    generalize step (nested limit remaining) e env s = r at hends hc
    rcases r with ⟨(v | ⟨e', env'⟩) | x | _, s'⟩
    · cases hc
    · obtain rfl := List.mem_singleton.mp hc
      refine ⟨hends.store.2, ?_⟩
      cases hends.outcome with
      | ok h =>
        cases h with
        | tail h => exact h.2
    · cases hc
    · cases hc

theorem length_nestedCalls_le (sub : Expr → EnvId → Run Value) (e : Expr) (env : EnvId)
    (s : Store) : (nestedCalls sub e env s).length ≤ e.width + 1 := by
  have hasked : ((Dialogue.step e env s).asked sub).length ≤ e.width :=
    (Dialogue.step_short e env s).length_asked_le
  have htails : (tails (step sub e env s)).length ≤ 1 := by
    unfold tails
    split <;> simp
  rw [nestedCalls, List.length_append]
  exact Nat.add_le_add hasked htails

theorem evaluations_le {n : Nat} (hn : 3 ≤ n) (limit remaining : Nat) {c : Call}
    (hs : (Standard.narrow n hn).Met c.store)
    (he : (Standard.narrow n hn).expr c.store c.expr c.env) :
    evaluations limit remaining c ≤ (n + 2) ^ remaining := by
  induction remaining generalizing c with
  | zero => exact Nat.le_refl 1
  | succ remaining ih =>
    have hinner : ∀ k ∈ (nestedCalls (nested limit remaining) c.expr c.env c.store).map
        (evaluations limit remaining), k ≤ (n + 2) ^ remaining := by
      intro k hk
      obtain ⟨c', hc', rfl⟩ := List.mem_map.mp hk
      obtain ⟨hs', he'⟩ := Standard.met_of_mem_nestedCalls hs he hc'
      exact ih hs' he'
    have hlength := length_nestedCalls_le (nested limit remaining) c.expr c.env c.store
    have hwidth : c.expr.width ≤ n := he
    have hsum := List.sum_le_card_nsmul _ _ hinner
    rw [List.length_map, nsmul_eq_mul, Nat.cast_id] at hsum
    calc evaluations limit (remaining + 1) c
        ≤ 1 + (n + 1) * (n + 2) ^ remaining := by
          rw [evaluations]
          exact Nat.add_le_add_left (Nat.le_trans hsum (Nat.mul_le_mul_right _ (by omega))) 1
      _ ≤ (n + 2) ^ remaining + (n + 1) * (n + 2) ^ remaining :=
          Nat.add_le_add_right (Nat.one_le_pow _ _ (by omega)) _
      _ = (n + 2) ^ (remaining + 1) := by ring

end Eval

open Eval

/-- The nested evaluator always returns. It does so after a number of evaluations that is bounded by
    a power of the longest list at hand, with the limit as the exponent. And on what the trampoline
    never returns from under the same limit, it returns the depth error that carries the limit. -/
theorem nested_always_returns (maxDepth : Int) (e : Expr) (env : EnvId) (s : Store) :
    let ev : Evaluator := ⟨true, maxDepth⟩
    (∃ r s', ev.Returns e env s r s') ∧
    evaluations ev.limit ev.limit ⟨e, env, s⟩ ≤
      (max 3 (max e.width s.width) + 2) ^ ev.limit ∧
    ((¬ ∃ r s', Evaluator.Returns ⟨false, maxDepth⟩ e env s r s') →
      ∃ s', ev.Returns e env s (.error (.depth ev.limit)) s') := by
  intro ev
  have heval : ∀ fuel, ev.eval fuel e env s = nested ev.limit ev.limit e env s := by
    intro fuel
    rw [Evaluator.eval_of_recursive rfl]
  refine ⟨?_, ?_, ?_⟩
  · have hended : (nested ev.limit ev.limit e env s).1.Ended := by
      rcases nested_onlyDepth ev.limit ev.limit e env s with h | h
      · exact h.ended
      · rw [h]
        exact id
    obtain ⟨r, s', hr⟩ := Outcome.exists_eq_ofExcept hended
    exact ⟨r, s', 0, fun fuel _ => (heval fuel).trans hr⟩
  · refine evaluations_le (Nat.le_max_left 3 _) ev.limit ev.limit ?_ ?_
    · intro env' x v hv
      exact Nat.le_trans (Store.width_le hv)
        (Nat.le_trans (Nat.le_max_right _ _) (Nat.le_max_right 3 _))
    · exact Nat.le_trans (Nat.le_max_left _ s.width) (Nat.le_max_right 3 _)
  · intro hloop
    rcases nested_onlyDepth ev.limit ev.limit e env s with h | h
    · -- the trampoline would have returned as well
      have htrampoline := fun fuel (hle : ev.limit ≤ fuel) =>
        nested_extends_trampoline ev.limit hle e env s h
      obtain ⟨r, s', hr⟩ := Outcome.exists_eq_ofExcept h.ended
      refine absurd ⟨r, s', ev.limit, ?_⟩ hloop
      intro fuel hle
      rw [Evaluator.eval_of_not_recursive rfl]
      exact (htrampoline fuel hle).trans hr
    · exact ⟨_, 0, fun fuel _ => (heval fuel).trans (Prod.ext h rfl)⟩

/-! ### A loop -/

namespace Eval

/-- `(loop)`. -/
def loopCall : Expr := .list [.sym "loop"]

/-- The procedure `(lambda () (loop))`, made in the first environment. -/
def loopProcedure : Value := .closure 0 0 [] (bodyOf [loopCall])

/-- One environment, in which `loop` calls itself. -/
def loopStore : Store := Store.empty.newEnv.2.newIdentity.2.bind 0 "loop" loopProcedure

/-- The procedure is bound in the environment and where it was made. -/
structure Looping (env : EnvId) (s : Store) : Prop where
  made : 0 < s.tables.size
  home : (s.table 0).get? "loop" = some loopProcedure
  here : (s.table env).get? "loop" = some loopProcedure

theorem Looping.extend {env : EnvId} {s : Store} (h : Looping env s) :
    Looping s.tables.size (s.extend 0 [] []).2 where
  made := Nat.lt_of_lt_of_le h.made (Store.Grows.allocate s _).size
  home := by
    rw [Store.extend, Store.table_allocate_of_lt s _ h.made]
    exact h.home
  here := by
    rw [Store.extend, Store.table_allocate, if_pos rfl]
    exact h.home

/-- Each call of the procedure comes back to the call after two tails. -/
theorem bounce_looping (limit remaining enough fuel : Nat) {env : EnvId} {s : Store}
    (h : Looping env s) :
    (bounce (trampoline enough limit (remaining + 1)) fuel loopCall env s).1 = .outOfFuel ∧
    (bounce (trampoline enough limit (remaining + 1)) fuel (bodyOf [loopCall]) env s).1 =
      .outOfFuel := by
  induction fuel generalizing env s with
  | zero => exact ⟨rfl, rfl⟩
  | succ fuel ih =>
    refine ⟨?_, (bounce_succ _ _ _ _ _).symm ▸ (ih h).1⟩
    rw [bounce_succ, step_eq_run]
    cases enough with
    | zero => rfl
    | succ enough =>
      have hoperator : trampoline (enough + 1) limit (remaining + 1) (.sym "loop") env s =
          (.ok loopProcedure, s) := by
        rw [trampoline, bounce_succ]
        simp only [step, Bind.bind, Run.bind, Run.lookup, Store.lookup, h.here]
        rfl
      have hstep : (Dialogue.step loopCall env s).run
          (trampoline (enough + 1) limit (remaining + 1)) =
          (.ok (.tail (bodyOf [loopCall]) s.tables.size), (s.extend 0 [] []).2) := by
        show (Dialogue.application env (.sym "loop") [] s).run _ = _
        simp only [Dialogue.application, Dialogue.run, Call.answer, hoperator]
        rfl
      rw [hstep]
      exact (ih h.extend).2

/-- The trampoline never returns from the loop, unless the limit does not even allow it to look up
    the procedure. -/
theorem loop_never_returns {maxDepth : Int} {limit : Nat}
    (hlimit : Evaluator.limit ⟨false, maxDepth⟩ = limit + 2) (r : Except EvalError Value)
    (s' : Store) : ¬ Evaluator.Returns ⟨false, maxDepth⟩ loopCall 0 loopStore r s' := by
  rintro ⟨enough, h⟩
  have hlooping : Looping 0 loopStore := ⟨by decide, rfl, rfl⟩
  have hlack := (bounce_looping (limit + 2) limit enough enough hlooping).1
  have heval := h enough (Nat.le_refl _)
  rw [Evaluator.eval_of_not_recursive rfl, hlimit, trampoline] at heval
  rw [heval] at hlack
  cases r <;> cases hlack

end Eval

/-- Under the default limit the trampoline never returns from the loop, and the nested evaluator
    returns the depth error. -/
theorem loop_depth_error :
    (¬ ∃ r s', Evaluator.Returns ⟨false, 0⟩ loopCall 0 loopStore r s') ∧
    ∃ s', Evaluator.Returns ⟨true, 0⟩ loopCall 0 loopStore (.error (.depth 10000)) s' := by
  have hloop : ¬ ∃ r s', Evaluator.Returns ⟨false, 0⟩ loopCall 0 loopStore r s' := by
    rintro ⟨r, s', h⟩
    have hlimit : Evaluator.limit ⟨false, 0⟩ = 9998 + 2 := rfl
    exact loop_never_returns hlimit r s' h
  exact ⟨hloop, (nested_always_returns 0 loopCall 0 loopStore).2.2 hloop⟩

end FlatScheme
