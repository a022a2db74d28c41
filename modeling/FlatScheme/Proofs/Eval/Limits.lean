import FlatScheme.Proofs.Eval.Dialogue

/-!
What more depth and more fuel change.

Raising a limit can only turn an outcome that the limit caused into another one. For fuel that
outcome is the lack of fuel; for depth it is also the depth error. Both are instances of one order:
`sub'` *extends* `sub` when it gives every answer of `sub` that is not stuck. A step, the loop over
tails and both evaluators are monotone in that order.

`Evaluator.Returns` is the meaning of an evaluation without reference to fuel: the outcome that
every sufficient amount of it gives.
-/

namespace FlatScheme

/-- Is this the error that evaluations were nested too deep? -/
def EvalError.IsDepth : EvalError → Prop
  | .depth _ => True
  | _ => False

namespace Outcome

variable {α : Type}

/-- Neither a lack of fuel nor one of the errors `stuck`. -/
def Clear (stuck : EvalError → Prop) : Outcome α → Prop
  | .ok _ => True
  | .error e => ¬ stuck e
  | .outOfFuel => False

/-- An outcome that no limit caused. -/
abbrev Settled (o : Outcome α) : Prop := o.Clear EvalError.IsDepth

/-- An outcome other than the lack of fuel. -/
abbrev Ended (o : Outcome α) : Prop := o.Clear fun _ => False

/-- How an evaluation that ends can end. -/
def ofExcept : Except EvalError α → Outcome α
  | .ok a => .ok a
  | .error e => .error e

theorem ended_ofExcept (r : Except EvalError α) : (ofExcept r).Ended := by
  cases r <;> simp [ofExcept, Clear]

theorem exists_eq_ofExcept {p : Outcome α × Store} (h : p.1.Ended) :
    ∃ r s, p = (ofExcept r, s) := by
  rcases p with ⟨a | e | _, s⟩
  · exact ⟨.ok a, s, rfl⟩
  · exact ⟨.error e, s, rfl⟩
  · exact h.elim

theorem settled_ofExcept {r : Except EvalError α} :
    (ofExcept r).Settled ↔ ∀ n, r ≠ .error (.depth n) := by
  cases r with
  | ok a => simp [ofExcept, Clear]
  | error e => cases e <;> simp [ofExcept, Clear, EvalError.IsDepth]

theorem Settled.ended {o : Outcome α} (h : o.Settled) : o.Ended := by
  cases o with
  | ok a => trivial
  | error e => exact id
  | outOfFuel => exact h

end Outcome

namespace Eval

/-! ### One round of an evaluator -/

/-- Finish a step: a value is the result, a tail is handed to `tail`. -/
def follow (tail : Expr → EnvId → Run Value) : Outcome Next × Store → Outcome Value × Store
  | (.ok (.value v), s) => (.ok v, s)
  | (.ok (.tail e env), s) => tail e env s
  | (.error e, s) => (.error e, s)
  | (.outOfFuel, s) => (.outOfFuel, s)

theorem nested_succ (limit remaining : Nat) (e : Expr) (env : EnvId) (s : Store) :
    nested limit (remaining + 1) e env s =
      follow (nested limit remaining) (step (nested limit remaining) e env s) := by
  show Run.bind (step (nested limit remaining) e env) _ s = _
  simp only [Run.bind]
  rcases step (nested limit remaining) e env s with ⟨(_ | _) | _ | _, s'⟩ <;> rfl

theorem bounce_succ (sub : Expr → EnvId → Run Value) (fuel : Nat) (e : Expr) (env : EnvId)
    (s : Store) :
    bounce sub (fuel + 1) e env s = follow (bounce sub fuel) (step sub e env s) := by
  show Run.bind (step sub e env) _ s = _
  simp only [Run.bind]
  rcases step sub e env s with ⟨(_ | _) | _ | _, s'⟩ <;> rfl

/-! ### The order -/

/-- `sub'` gives every answer of `sub` that is not stuck. -/
def Extends (stuck : EvalError → Prop) (sub sub' : Expr → EnvId → Run Value) : Prop :=
  ∀ e env s, (sub e env s).1.Clear stuck → sub' e env s = sub e env s

variable {stuck : EvalError → Prop} {sub sub' tail tail' : Expr → EnvId → Run Value}

theorem Extends.refl (stuck : EvalError → Prop) (sub : Expr → EnvId → Run Value) :
    Extends stuck sub sub := fun _ _ _ _ => rfl

/-- The parts of a step that ended clear of the stuck errors ended so too. -/
theorem clear_of_mem_asked {d : Dialogue} (h : (d.run sub).1.Clear stuck) {c : Call}
    (hc : c ∈ d.asked sub) : (c.answer sub).1.Clear stuck := by
  rcases d.answer_cases hc with ⟨v, s, ha⟩ | ⟨e, s, ha, hd⟩ | ⟨s, ha, hd⟩
  · rw [ha]; trivial
  · rw [ha]; rwa [hd] at h
  · rw [ha]; rwa [hd] at h

theorem step_extends (hsub : Extends stuck sub sub') {e : Expr} {env : EnvId} {s : Store}
    (h : (step sub e env s).1.Clear stuck) : step sub' e env s = step sub e env s := by
  rw [step_eq_run] at h
  rw [step_eq_run, step_eq_run]
  exact Dialogue.run_congr _ fun c hc => hsub _ _ _ (clear_of_mem_asked h hc)

theorem clear_of_follow {r : Outcome Next × Store} (h : (follow tail r).1.Clear stuck) :
    r.1.Clear stuck := by
  rcases r with ⟨_ | _ | _, s⟩
  · trivial
  · exact h
  · exact h

theorem follow_extends (htail : Extends stuck tail tail') {r : Outcome Next × Store}
    (h : (follow tail r).1.Clear stuck) : follow tail' r = follow tail r := by
  rcases r with ⟨(_ | _) | _ | _, s⟩
  · rfl
  · exact htail _ _ _ h
  · rfl
  · rfl

/-- One round is monotone both in what answers the calls and in what continues the tail. -/
theorem round_extends (hsub : Extends stuck sub sub') (htail : Extends stuck tail tail') {e : Expr}
    {env : EnvId} {s : Store} (h : (follow tail (step sub e env s)).1.Clear stuck) :
    follow tail' (step sub' e env s) = follow tail (step sub e env s) := by
  rw [step_extends hsub (clear_of_follow h)]
  exact follow_extends htail h

theorem bounce_extends (hsub : Extends stuck sub sub') :
    ∀ {fuel fuel' : Nat}, fuel ≤ fuel' → Extends stuck (bounce sub fuel) (bounce sub' fuel')
  | 0, _, _ => fun _ _ _ h => h.elim
  | fuel + 1, fuel' + 1, hle => by
    intro e env s h
    rw [bounce_succ] at h
    rw [bounce_succ, bounce_succ]
    exact round_extends hsub (bounce_extends hsub (Nat.le_of_succ_le_succ hle)) h

/-! ### The evaluators -/

/-- The largest of some numbers, zero if there are none. -/
def largest (ns : List Nat) : Nat := ns.foldr max 0

theorem largest_cons (n : Nat) (ns : List Nat) : largest (n :: ns) = max n (largest ns) := rfl

theorem largest_append : ∀ ms ns : List Nat, largest (ms ++ ns) = max (largest ms) (largest ns)
  | [], ns => (Nat.zero_max _).symm
  | m :: ms, ns => by
    rw [List.cons_append, largest_cons, largest_cons, largest_append ms ns, Nat.max_assoc]

theorem le_largest {m : Nat} : ∀ {ns : List Nat}, m ∈ ns → m ≤ largest ns
  | n :: ns, h => by
    rw [largest_cons]
    rcases List.mem_cons.mp h with rfl | h
    · exact Nat.le_max_left m (largest ns)
    · exact Nat.le_trans (le_largest h) (Nat.le_max_right n (largest ns))

/-- More depth keeps what the nested evaluator settles; the limit shows in depth errors only. -/
theorem nested_extends (limit limit' : Nat) :
    ∀ {remaining remaining' : Nat}, remaining ≤ remaining' →
    Extends EvalError.IsDepth (nested limit remaining) (nested limit' remaining')
  | 0, _, _ => fun _ _ _ h => (h trivial).elim
  | remaining + 1, remaining' + 1, hle => by
    intro e env s h
    have ih := nested_extends limit limit' (Nat.le_of_succ_le_succ hle)
    rw [nested_succ] at h
    rw [nested_succ, nested_succ]
    exact round_extends ih ih h

/-- More depth and more fuel keep what the trampoline settles. -/
theorem trampoline_extends (limit limit' : Nat) {fuel fuel' : Nat} (hfuel : fuel ≤ fuel') :
    ∀ {remaining remaining' : Nat}, remaining ≤ remaining' →
      Extends EvalError.IsDepth (trampoline fuel limit remaining)
        (trampoline fuel' limit' remaining')
  | 0, _, _ => fun _ _ _ h => (h trivial).elim
  | _ + 1, _ + 1, hle =>
    bounce_extends (trampoline_extends limit limit' hfuel (Nat.le_of_succ_le_succ hle)) hfuel

/-- More fuel alone keeps every outcome of the trampoline, depth errors included. -/
theorem trampoline_extends_fuel (limit : Nat) {fuel fuel' : Nat} (hfuel : fuel ≤ fuel') :
    ∀ remaining : Nat, Extends (fun _ => False) (trampoline fuel limit remaining)
      (trampoline fuel' limit remaining)
  | 0 => Extends.refl _ _
  | remaining + 1 => bounce_extends (trampoline_extends_fuel limit hfuel remaining) hfuel

end Eval

namespace Evaluator

/-- The evaluation ends with `r` and leaves the store `s'`: so it does with every sufficient
    fuel. -/
def Returns (ev : Evaluator) (e : Expr) (env : EnvId) (s : Store) (r : Except EvalError Value)
    (s' : Store) : Prop :=
  ∃ enough, ∀ fuel, enough ≤ fuel → ev.eval fuel e env s = (.ofExcept r, s')

theorem eval_of_recursive {ev : Evaluator} (h : ev.recursive = true) (fuel : Nat) :
    ev.eval fuel = Eval.nested ev.limit ev.limit := by
  funext e env
  rw [eval, if_pos h]

theorem eval_of_not_recursive {ev : Evaluator} (h : ev.recursive = false) (fuel : Nat) :
    ev.eval fuel = Eval.trampoline fuel ev.limit ev.limit := by
  funext e env
  rw [eval, if_neg (by rw [h]; exact Bool.false_ne_true)]

/-- An evaluation that ends with some fuel ends so with more. -/
theorem eval_of_le {ev : Evaluator} {fuel fuel' : Nat} (hle : fuel ≤ fuel') {e : Expr} {env : EnvId}
    {s : Store} (h : (ev.eval fuel e env s).1.Ended) :
    ev.eval fuel' e env s = ev.eval fuel e env s := by
  cases hrec : ev.recursive with
  | true => rw [eval_of_recursive hrec, eval_of_recursive hrec]
  | false =>
    rw [eval_of_not_recursive hrec] at h
    rw [eval_of_not_recursive hrec, eval_of_not_recursive hrec]
    exact Eval.trampoline_extends_fuel ev.limit hle ev.limit e env s h

theorem returns_of_eval {ev : Evaluator} {fuel : Nat} {e : Expr} {env : EnvId} {s s' : Store}
    {r : Except EvalError Value} (h : ev.eval fuel e env s = (.ofExcept r, s')) :
    ev.Returns e env s r s' := by
  refine ⟨fuel, fun fuel' hle => ?_⟩
  rw [eval_of_le hle (by rw [h]; exact Outcome.ended_ofExcept r), h]

/-- The limit in effect is at least one. -/
theorem one_le_limit (ev : Evaluator) : 1 ≤ ev.limit := by
  unfold limit defaultMaxDepth
  split <;> omega

/-- A positive limit that is asked for is the limit in effect. -/
theorem limit_ofNat (recursive : Bool) {n : Nat} (hn : 1 ≤ n) :
    (⟨recursive, n⟩ : Evaluator).limit = n := by
  unfold limit
  rw [if_neg (by simp only; omega)]
  rfl

end Evaluator

/-! ### A sample -/

namespace Eval

/-- `(if y (set! y x)) y`: the body of a procedure of `x`, which reads `y` where it was made, assigns
    what it is called with to it, and reads it again. -/
def sampleBody : List Expr :=
  [.list [.sym "if", .sym "y", .list [.sym "set!", .sym "y", .sym "x"]], .sym "y"]

/-- `((lambda (x) (if y (set! y x)) y) 0)`: a call that gives back its argument by way of `y`. -/
def sampleCall : Expr :=
  .list [.list (.sym "lambda" :: .list [.sym "x"] :: sampleBody), .num .zero]

/-- One environment, in which `y` is true. -/
def sampleStore : Store := Store.empty.newEnv.2.bind 0 "y" (.bool true)

end Eval

end FlatScheme
