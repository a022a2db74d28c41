import FlatScheme.Eval

/-!
What a step asks for.

A step evaluates the parts of an expression that are not in tail position by means of an evaluator
it is given, and it learns nothing about that evaluator but the answers. So a step is a *dialogue*:
a tree whose nodes are the calls it makes, one after the other, and whose branches are the values
and stores that may come back. `step_eq_run` says that running this tree is the step, whatever
evaluator answers.

Two facts about dialogues carry everything that is said about depth and fuel elsewhere. An answer
that is no value is the end of the dialogue and its result (`answer_cases`), so no step can swallow
an error. And a run depends on the answers to the calls it makes and on no others (`run_congr`).
-/

namespace FlatScheme.Eval

/-- A request to evaluate an expression in an environment, on the store as it is at the time. -/
structure Call where
  expr : Expr
  env : EnvId
  store : Store

/-- What an evaluator answers to a call. -/
def Call.answer (sub : Expr → EnvId → Run Value) (c : Call) : Outcome Value × Store :=
  sub c.expr c.env c.store

/-- A step as a tree of calls: `ask c k` makes the call `c` and goes on with `k` if a value comes
    back. -/
inductive Dialogue where
  | done (r : Outcome Next × Store)
  | ask (c : Call) (k : Value → Store → Dialogue)

namespace Dialogue

/-- Hold the dialogue with an evaluator. -/
def run (sub : Expr → EnvId → Run Value) : Dialogue → Outcome Next × Store
  | .done r => r
  | .ask c k =>
    match c.answer sub with
    | (.ok v, s) => (k v s).run sub
    | (.error e, s) => (.error e, s)
    | (.outOfFuel, s) => (.outOfFuel, s)

/-- The calls made when the dialogue is held with an evaluator, in order. -/
def asked (sub : Expr → EnvId → Run Value) : Dialogue → List Call
  | .done _ => []
  | .ask c k =>
    c :: match c.answer sub with
      | (.ok v, s) => (k v s).asked sub
      | _ => []

/-! ### The dialogue of a step -/

/-- All forms but the last are asked for; the last is left in tail position. -/
def sequence (env : EnvId) : Expr → List Expr → Store → Dialogue
  | last, [], s => .done (.ok (.tail last env), s)
  | x, y :: rest, s => .ask ⟨x, env, s⟩ fun _ s' => sequence env y rest s'

/-- The operands are asked for from left to right, then `f` is called. -/
def operands (env : EnvId) (f : Value) : List Value → List Expr → Store → Dialogue
  | values, [], s => .done (call f values.reverse s)
  | values, x :: rest, s => .ask ⟨x, env, s⟩ fun v s' => operands env f (v :: values) rest s'

/-- The operator is asked for, then the operands. -/
def application (env : EnvId) (operator : Expr) (args : List Expr) (s : Store) : Dialogue :=
  .ask ⟨operator, env, s⟩ fun f s' => operands env f [] args s'

/-- Among the special forms only `begin`, `set!` and `if` ask for anything. -/
def special (env : EnvId) (form : Expr) : Keyword → List Expr → Store → Dialogue
  | .begin, x :: rest, s => sequence env x rest s
  | .set, [.sym x, e], s => .ask ⟨e, env, s⟩ fun v s' => .done (.ok (.value .nil), s'.bind env x v)
  | .cond, [test, yes], s =>
    .ask ⟨test, env, s⟩ fun v s' => .done (.ok (.tail (if v.isTrue then yes else .list []) env), s')
  | .cond, [test, yes, no], s =>
    .ask ⟨test, env, s⟩ fun v s' => .done (.ok (.tail (if v.isTrue then yes else no) env), s')
  | keyword, parts, s => .done (Eval.special (fun _ _ => .starve) env form keyword parts s)

/-- The dialogue of one step. -/
def step (e : Expr) (env : EnvId) (s : Store) : Dialogue :=
  match e with
  | .list (.sym x :: rest) =>
    match Keyword.ofName? x with
    | some keyword => special env (.list (.sym x :: rest)) keyword rest s
    | none => application env (.sym x) rest s
  | .list (operator :: args) => application env operator args s
  | e => .done (Eval.step (fun _ _ => .starve) e env s)

end Dialogue

section

variable (sub : Expr → EnvId → Run Value)

theorem sequence_eq_run (env : EnvId) : ∀ (x : Expr) (rest : List Expr) (s : Store),
    sequence sub env x rest s = (Dialogue.sequence env x rest s).run sub
  | _, [], _ => rfl
  | x, y :: rest, s => by
    have ih := sequence_eq_run env y rest
    show Run.bind (sub x env) _ s = _
    simp only [Run.bind, Dialogue.sequence, Dialogue.run, Call.answer]
    rcases sub x env s with ⟨_ | _ | _, s'⟩
    · exact ih s'
    · rfl
    · rfl

theorem operands_eq_run (env : EnvId) (f : Value) :
    ∀ (rest : List Expr) (values : List Value) (s : Store),
    (operands sub env values rest >>= call f) s = (Dialogue.operands env f values rest s).run sub
  | [], _, _ => rfl
  | x :: rest, values, s => by
    have ih := operands_eq_run env f rest
    show Run.bind (Run.bind (sub x env) _) _ s = _
    simp only [Run.bind, Dialogue.operands, Dialogue.run, Call.answer]
    rcases sub x env s with ⟨v | _ | _, s'⟩
    · exact ih (v :: values) s'
    · rfl
    · rfl

theorem application_eq_run (env : EnvId) (operator : Expr) (args : List Expr) (s : Store) :
    application sub env operator args s = (Dialogue.application env operator args s).run sub := by
  show Run.bind (sub operator env) _ s = _
  simp only [Run.bind, Dialogue.application, Dialogue.run, Call.answer]
  rcases sub operator env s with ⟨f | _ | _, s'⟩
  · exact operands_eq_run sub env f args [] s'
  · rfl
  · rfl

theorem special_eq_run (env : EnvId) (form : Expr) (keyword : Keyword) (parts : List Expr)
    (s : Store) :
    special sub env form keyword parts s = (Dialogue.special env form keyword parts s).run sub := by
  unfold Dialogue.special
  split
  · exact sequence_eq_run sub env _ _ s
  · next x e =>
    show Run.bind (sub e env) _ s = _
    simp only [Run.bind, Dialogue.run, Call.answer]
    rcases sub e env s with ⟨_ | _ | _, s'⟩ <;> rfl
  · next test yes =>
    show Run.bind (sub test env) _ s = _
    simp only [Run.bind, Dialogue.run, Call.answer]
    rcases sub test env s with ⟨_ | _ | _, s'⟩ <;> rfl
  · next test yes no =>
    show Run.bind (sub test env) _ s = _
    simp only [Run.bind, Dialogue.run, Call.answer]
    rcases sub test env s with ⟨_ | _ | _, s'⟩ <;> rfl
  · -- the forms left over evaluate no part
    unfold special
    split <;> first | rfl | simp_all

/-- A step is its dialogue, held with the evaluator of the parts. -/
theorem step_eq_run (e : Expr) (env : EnvId) (s : Store) :
    step sub e env s = (Dialogue.step e env s).run sub := by
  cases e with
  | list items =>
    cases items with
    | nil => rfl
    | cons operator args =>
      cases operator with
      | sym x =>
        simp only [step, Dialogue.step]
        cases Keyword.ofName? x with
        | some keyword => exact special_eq_run sub env _ keyword args s
        | none => exact application_eq_run sub env _ args s
      | _ => exact application_eq_run sub env _ args s
  | _ => rfl

end

/-! ### What a run depends on -/

namespace Dialogue

variable {sub sub' : Expr → EnvId → Run Value}

/-- The answer to a call that was made is a value, or else it is how the dialogue ended. -/
theorem answer_cases : ∀ (d : Dialogue) {c : Call}, c ∈ d.asked sub →
    (∃ v s, c.answer sub = (.ok v, s)) ∨
    (∃ e s, c.answer sub = (.error e, s) ∧ d.run sub = (.error e, s)) ∨
    (∃ s, c.answer sub = (.outOfFuel, s) ∧ d.run sub = (.outOfFuel, s))
  | .done _, _, hc => by simp [asked] at hc
  | .ask c₀ k, c, hc => by
    rcases h₀ : c₀.answer sub with ⟨v | e | _, s⟩
    · simp only [asked, h₀, List.mem_cons] at hc
      rcases hc with rfl | hc
      · exact Or.inl ⟨v, s, h₀⟩
      · simpa only [run, h₀] using answer_cases (k v s) hc
    · simp only [asked, h₀, List.mem_singleton] at hc
      subst hc
      exact Or.inr (Or.inl ⟨e, s, h₀, by simp only [run, h₀]⟩)
    · simp only [asked, h₀, List.mem_singleton] at hc
      subst hc
      exact Or.inr (Or.inr ⟨s, h₀, by simp only [run, h₀]⟩)

/-- Two evaluators that answer the calls made alike are not told apart. -/
theorem run_congr : ∀ (d : Dialogue), (∀ c ∈ d.asked sub, c.answer sub' = c.answer sub) →
    d.run sub' = d.run sub
  | .done _, _ => rfl
  | .ask c k, h => by
    have hc : c.answer sub' = c.answer sub := h c (by simp [asked])
    simp only [run, hc]
    rcases h₀ : c.answer sub with ⟨v | e | _, s⟩
    · refine run_congr (k v s) fun c' hc' => h c' ?_
      simp only [asked, h₀]
      exact List.mem_cons_of_mem c hc'
    · rfl
    · rfl

end Dialogue

end FlatScheme.Eval
