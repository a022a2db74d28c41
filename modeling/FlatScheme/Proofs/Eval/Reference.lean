import FlatScheme.Proofs.Eval.Agreement
import FlatScheme.Proofs.Eval.Depth
import FlatScheme.Proofs.Eval.Forms

/-!
The semantics of the language, and that the evaluators compute it.

`Evaluates` says by rules what an expression comes to, without steps, tails, fuel or a limit on
depth: the value or error it ends with and the store it leaves, effects made before an error
included. A `define` has rules of its own here, where the evaluators go on with another expression.

The evaluators and the rules meet in one round: the dialogue of a step, finished by the evaluator
that answers it (`Dialogue.finish`). A round of a sound evaluator follows a rule
(`finish_step_sound`), and a rule whose premises are settled with enough depth is settled with one
level more (`Settles.of_step`). The first gives soundness by induction on the depth, the second
completeness by induction on the derivation.
-/

namespace FlatScheme

namespace Eval

/-! ### The rules -/

mutual

/-- Evaluating `e` in `env` on the store `s` ends with `r` and leaves the store `s'`. -/
inductive Evaluates : Expr → EnvId → Store → Except EvalError Value → Store → Prop
  | num (n : Number) (env : EnvId) (s : Store) : Evaluates (.num n) env s (.ok (.num n)) s
  | str (t : String) (env : EnvId) (s : Store) : Evaluates (.str t) env s (.ok (.str t)) s
  | quoted (d : Value) (env : EnvId) (s : Store) : Evaluates (.quoted d) env s (.ok d) s
  | sym (x : String) (env : EnvId) (s : Store) : Evaluates (.sym x) env s (s.lookup env x) s
  | empty (env : EnvId) (s : Store) : Evaluates (.list []) env s (.ok .nil) s
  | absent (env : EnvId) (s : Store) : Evaluates .absent env s (.error (.invalid .absent)) s
  /-- A form of the wrong shape is the error itself, and none of its parts is evaluated. -/
  | invalid {k : String} {parts : List Expr} (env : EnvId) (s : Store)
      (hk : k ∈ Keyword.spellings) (h : ¬ Shaped (.sym k :: parts)) :
      Evaluates (.list (.sym k :: parts)) env s (.error (.invalid (.list (.sym k :: parts)))) s
  | begin {x : Expr} {rest : List Expr} {env : EnvId} {s s' : Store} {r : Except EvalError Value}
      (h : EvaluatesForms x rest env s r s') :
      Evaluates (.list (.sym "begin" :: x :: rest)) env s r s'
  | set {x : String} {e : Expr} {env : EnvId} {s s' : Store} {v : Value}
      (h : Evaluates e env s (.ok v) s') :
      Evaluates (.list [.sym "set!", .sym x, e]) env s (.ok .nil) (s'.bind env x v)
  | setError {x : String} {e : Expr} {env : EnvId} {s s' : Store} {err : EvalError}
      (h : Evaluates e env s (.error err) s') :
      Evaluates (.list [.sym "set!", .sym x, e]) env s (.error err) s'
  | define {x : String} {e : Expr} {env : EnvId} {s s' : Store} {v : Value}
      (h : Evaluates e env s (.ok v) s') :
      Evaluates (.list [.sym "define", .sym x, e]) env s (.ok (.sym x)) (s'.bind env x v)
  | defineError {x : String} {e : Expr} {env : EnvId} {s s' : Store} {err : EvalError}
      (h : Evaluates e env s (.error err) s') :
      Evaluates (.list [.sym "define", .sym x, e]) env s (.error err) s'
  | procedure (f : String) (names : List String) (b : Expr) (body : List Expr) (env : EnvId)
      (s : Store) :
      Evaluates (.list (.sym "define" :: .list (.sym f :: names.map .sym) :: b :: body)) env s
        (.ok (.sym f))
        (s.newIdentity.2.bind env f (.closure s.newIdentity.1 env names (bodyOf (b :: body))))
  /-- The error carries the procedure that the definition would have bound. -/
  | procedureInvalid {f : String} {params : List Expr} {b : Expr} {body : List Expr} (env : EnvId)
      (s : Store) (h : ∀ names : List String, params ≠ names.map .sym) :
      Evaluates (.list (.sym "define" :: .list (.sym f :: params) :: b :: body)) env s
        (.error (.invalid (.list (.sym "lambda" :: .list params :: b :: body)))) s
  | condTrue {test yes : Expr} {no : Option Expr} {env : EnvId} {s s' s'' : Store} {v : Value}
      {r : Except EvalError Value} (h : Evaluates test env s (.ok v) s') (hv : v.isTrue = true)
      (hyes : Evaluates yes env s' r s'') :
      Evaluates (.list (.sym "if" :: test :: yes :: no.toList)) env s r s''
  | condFalse {test yes no : Expr} {env : EnvId} {s s' s'' : Store} {v : Value}
      {r : Except EvalError Value} (h : Evaluates test env s (.ok v) s') (hv : v.isTrue = false)
      (hno : Evaluates no env s' r s'') :
      Evaluates (.list [.sym "if", test, yes, no]) env s r s''
  | condMissing {test yes : Expr} {env : EnvId} {s s' : Store} {v : Value}
      (h : Evaluates test env s (.ok v) s') (hv : v.isTrue = false) :
      Evaluates (.list [.sym "if", test, yes]) env s (.ok .nil) s'
  | condError {test yes : Expr} {no : Option Expr} {env : EnvId} {s s' : Store} {err : EvalError}
      (h : Evaluates test env s (.error err) s') :
      Evaluates (.list (.sym "if" :: test :: yes :: no.toList)) env s (.error err) s'
  | lambda (names : List String) (body : List Expr) (env : EnvId) (s : Store) :
      Evaluates (.list (.sym "lambda" :: .list (names.map .sym) :: body)) env s
        (.ok (.closure s.newIdentity.1 env names (bodyOf body))) s.newIdentity.2
  | partError {operator : Expr} {args : List Expr} {env : EnvId} {s s' : Store} {err : EvalError}
      (hop : ∀ k ∈ Keyword.spellings, operator ≠ .sym k)
      (h : EvaluatesAll (operator :: args) env s (.error err) s') :
      Evaluates (.list (operator :: args)) env s (.error err) s'
  | apply {operator : Expr} {args : List Expr} {env : EnvId} {s s' s'' : Store} {f : Value}
      {vs : List Value} {r : Except EvalError Value}
      (hop : ∀ k ∈ Keyword.spellings, operator ≠ .sym k)
      (h : EvaluatesAll (operator :: args) env s (.ok (f :: vs)) s')
      (hcall : Applies f vs s' r s'') :
      Evaluates (.list (operator :: args)) env s r s''

/-- The forms of a `begin`, the first of them apart: in order, up to the first error. -/
inductive EvaluatesForms :
    Expr → List Expr → EnvId → Store → Except EvalError Value → Store → Prop
  | last {x : Expr} {env : EnvId} {s s' : Store} {r : Except EvalError Value}
      (h : Evaluates x env s r s') : EvaluatesForms x [] env s r s'
  | next {x y : Expr} {rest : List Expr} {env : EnvId} {s s' s'' : Store} {v : Value}
      {r : Except EvalError Value} (h : Evaluates x env s (.ok v) s')
      (hrest : EvaluatesForms y rest env s' r s'') : EvaluatesForms x (y :: rest) env s r s''
  | error {x y : Expr} {rest : List Expr} {env : EnvId} {s s' : Store} {err : EvalError}
      (h : Evaluates x env s (.error err) s') : EvaluatesForms x (y :: rest) env s (.error err) s'

/-- The parts of an application from left to right, up to the first error. -/
inductive EvaluatesAll :
    List Expr → EnvId → Store → Except EvalError (List Value) → Store → Prop
  | nil (env : EnvId) (s : Store) : EvaluatesAll [] env s (.ok []) s
  | cons {x : Expr} {rest : List Expr} {env : EnvId} {s s' s'' : Store} {v : Value}
      {vs : List Value} (h : Evaluates x env s (.ok v) s')
      (hrest : EvaluatesAll rest env s' (.ok vs) s'') :
      EvaluatesAll (x :: rest) env s (.ok (v :: vs)) s''
  | error {x : Expr} {rest : List Expr} {env : EnvId} {s s' : Store} {err : EvalError}
      (h : Evaluates x env s (.error err) s') :
      EvaluatesAll (x :: rest) env s (.error err) s'
  | later {x : Expr} {rest : List Expr} {env : EnvId} {s s' s'' : Store} {v : Value}
      {err : EvalError} (h : Evaluates x env s (.ok v) s')
      (hrest : EvaluatesAll rest env s' (.error err) s'') :
      EvaluatesAll (x :: rest) env s (.error err) s''

/-- A value called with arguments. -/
inductive Applies : Value → List Value → Store → Except EvalError Value → Store → Prop
  | prim {p : Primitive} {vs : List Value} {v : Value} (s : Store) (h : p.apply vs = .ok v) :
      Applies (.prim p) vs s (.ok v) s
  | primError {p : Primitive} {vs : List Value} {e : PrimitiveError} (s : Store)
      (h : p.apply vs = .error e) :
      Applies (.prim p) vs s (.error (.primitive e.operator e.fault)) s
  | broken (identity : Nat) (name reason : String) (vs : List Value) (s : Store) :
      Applies (.broken identity name reason) vs s (.error (.primitive name (.host reason))) s
  /-- The body runs in a copy of the environment that the closure was made in, as that
      environment is now. -/
  | closure {identity : Nat} {env : EnvId} {params : List String} {body : Expr} {vs : List Value}
      {s s' : Store} {r : Except EvalError Value}
      (h : Evaluates body (s.extend env params vs).1 (s.extend env params vs).2 r s') :
      Applies (.closure identity env params body) vs s r s'
  | notProcedure {v : Value} (vs : List Value) (s : Store) (h : v.kind ≠ .procedure) :
      Applies v vs s (.error (.notProcedure v)) s

end

/-! ### One round -/

namespace Dialogue

/-- Hold a dialogue with an evaluator and let it go on with the tail, if one is left. -/
def finish (sub : Expr → EnvId → Run Value) (d : Dialogue) : Outcome Value × Store :=
  follow sub (d.run sub)

variable {sub : Expr → EnvId → Run Value} {e : Expr} {env : EnvId} {s s' : Store}
  {k : Value → Store → Dialogue}

theorem finish_ask_ok {v : Value} (h : sub e env s = (.ofExcept (.ok v), s')) :
    (ask ⟨e, env, s⟩ k).finish sub = (k v s').finish sub := by
  simp only [finish, run, Call.answer, h, Outcome.ofExcept]

theorem finish_ask_error {err : EvalError} (h : sub e env s = (.ofExcept (.error err), s')) :
    (ask ⟨e, env, s⟩ k).finish sub = (.ofExcept (.error err), s') := by
  simp only [finish, run, Call.answer, h, Outcome.ofExcept, follow]

theorem finish_step_sym (x : String) :
    (step (.sym x) env s).finish sub = (.ofExcept (s.lookup env x), s) := by
  show follow sub (Run.bind (Run.lookup env x) _ s) = _
  simp only [Run.bind, Run.lookup]
  cases s.lookup env x <;> rfl

end Dialogue

theorem nested_succ_eq_finish (limit remaining : Nat) (e : Expr) (env : EnvId) (s : Store) :
    nested limit (remaining + 1) e env s =
      (Dialogue.step e env s).finish (nested limit remaining) := by
  rw [nested_succ, step_eq_run]
  rfl

/-- An evaluation ends in one way. -/
theorem ofExcept_inj {a r : Except EvalError Value} {s s' : Store}
    (h : (Outcome.ofExcept a, s) = (Outcome.ofExcept r, s')) : r = a ∧ s' = s := by
  cases a <;> cases r <;> cases h <;> exact ⟨rfl, rfl⟩

/-! ### What the rules say of single forms -/

namespace Evaluates

variable {e : Expr} {env : EnvId} {s s' : Store} {r : Except EvalError Value}

theorem begin_inv {x : Expr} {rest : List Expr}
    (h : Evaluates (.list (.sym "begin" :: x :: rest)) env s r s') :
    EvaluatesForms x rest env s r s' := by
  generalize hform : Expr.list (.sym "begin" :: x :: rest) = form at h
  cases h with
  | begin h => cases hform; exact h
  | invalid _ _ _ hbad => cases hform; exact absurd (.begin x rest) hbad
  | partError hop | apply hop => cases hform; exact absurd rfl (hop _ (by decide))
  | _ => simp at hform

theorem set_inv {x : String} (h : Evaluates (.list [.sym "set!", .sym x, e]) env s r s') :
    (∃ v s₁, Evaluates e env s (.ok v) s₁ ∧ r = .ok .nil ∧ s' = s₁.bind env x v) ∨
    (∃ err, Evaluates e env s (.error err) s' ∧ r = .error err) := by
  generalize hform : Expr.list [.sym "set!", .sym x, e] = form at h
  cases h with
  | set h => cases hform; exact .inl ⟨_, _, h, rfl, rfl⟩
  | setError h => cases hform; exact .inr ⟨_, h, rfl⟩
  | invalid _ _ _ hbad => cases hform; exact absurd (.set x e) hbad
  | partError hop | apply hop => cases hform; exact absurd rfl (hop _ (by decide))
  | _ => simp at hform

theorem define_inv {x : String} (h : Evaluates (.list [.sym "define", .sym x, e]) env s r s') :
    (∃ v s₁, Evaluates e env s (.ok v) s₁ ∧ r = .ok (.sym x) ∧ s' = s₁.bind env x v) ∨
    (∃ err, Evaluates e env s (.error err) s' ∧ r = .error err) := by
  generalize hform : Expr.list [.sym "define", .sym x, e] = form at h
  cases h with
  | define h => cases hform; exact .inl ⟨_, _, h, rfl, rfl⟩
  | defineError h => cases hform; exact .inr ⟨_, h, rfl⟩
  | invalid _ _ _ hbad => cases hform; exact absurd (.define x e) hbad
  | partError hop | apply hop => cases hform; exact absurd rfl (hop _ (by decide))
  | _ => simp at hform

theorem lambda_inv {params body : List Expr}
    (h : Evaluates (.list (.sym "lambda" :: .list params :: body)) env s r s') :
    (∃ names : List String, params = names.map .sym ∧ s' = s.newIdentity.2 ∧
      r = .ok (.closure s.newIdentity.1 env names (bodyOf body))) ∨
    ((∀ names : List String, params ≠ names.map .sym) ∧ s' = s ∧
      r = .error (.invalid (.list (.sym "lambda" :: .list params :: body)))) := by
  generalize hform : Expr.list (.sym "lambda" :: .list params :: body) = form at h
  cases h with
  | lambda names => cases hform; exact .inl ⟨names, rfl, rfl, rfl⟩
  | invalid _ _ _ hbad =>
    cases hform
    refine .inr ⟨?_, rfl, rfl⟩
    rintro names rfl
    exact hbad (.lambda names body)
  | partError hop | apply hop => cases hform; exact absurd rfl (hop _ (by decide))
  | _ => simp at hform

/-- The direct rule for `(define x e)` and what it stands for. -/
theorem of_defineValue {x : String} (h : Evaluates (defineValue x e) env s r s') :
    Evaluates (.list [.sym "define", .sym x, e]) env s r s' := by
  cases h.begin_inv with
  | next hset hlast =>
    rcases hset.set_inv with ⟨v, s₁, he, -, rfl⟩ | ⟨err, -, herr⟩
    · cases hlast with
      | last hquoted =>
        cases hquoted
        exact .define he
    · cases herr
  | error hset =>
    rcases hset.set_inv with ⟨v, s₁, -, hok, -⟩ | ⟨err, he, herr⟩
    · cases hok
    · cases herr
      exact .defineError he

/-- The direct rules for `(define (f p …) b …)` and what it stands for. -/
theorem of_defineProcedure {f : String} {params : List Expr} {b : Expr} {body : List Expr}
    (h : Evaluates (defineProcedure f params (b :: body)) env s r s') :
    Evaluates (.list (.sym "define" :: .list (.sym f :: params) :: b :: body)) env s r s' := by
  rcases h.define_inv with ⟨v, s₁, hlambda, rfl, rfl⟩ | ⟨err, hlambda, rfl⟩
  · rcases hlambda.lambda_inv with ⟨names, rfl, rfl, hv⟩ | ⟨-, -, herr⟩
    · cases hv
      exact .procedure f names b body env s
    · cases herr
  · rcases hlambda.lambda_inv with ⟨names, -, -, hok⟩ | ⟨hparams, rfl, herr⟩
    · cases hok
    · cases herr
      exact .procedureInvalid env s' hparams

end Evaluates

/-! ### Soundness -/

/-- What the evaluator returns follows from the rules, depth errors apart. -/
def Sound (sub : Expr → EnvId → Run Value) : Prop :=
  ∀ ⦃e env s r s'⦄, sub e env s = (.ofExcept r, s') → (∀ n, r ≠ .error (.depth n)) →
    Evaluates e env s r s'

section

variable {sub : Expr → EnvId → Run Value} {env : EnvId} {s s' : Store}
  {r : Except EvalError Value}

/-- The first call of a dialogue with a sound evaluator yields a value by the rules, and the
    dialogue goes on, or an error by the rules, which is how the dialogue ends. -/
theorem Sound.ask_cases (hsub : Sound sub) {e : Expr} {k : Value → Store → Dialogue}
    (h : (Dialogue.ask ⟨e, env, s⟩ k).finish sub = (.ofExcept r, s'))
    (hr : ∀ n, r ≠ .error (.depth n)) :
    (∃ v s₁, Evaluates e env s (.ok v) s₁ ∧ (k v s₁).finish sub = (.ofExcept r, s')) ∨
    (∃ err, Evaluates e env s (.error err) s' ∧ r = .error err) := by
  rcases hans : sub e env s with ⟨v | err | _, s₁⟩
  · rw [Dialogue.finish_ask_ok hans] at h
    exact .inl ⟨v, s₁, hsub hans nofun, h⟩
  · rw [Dialogue.finish_ask_error hans] at h
    obtain ⟨rfl, rfl⟩ := ofExcept_inj h
    exact .inr ⟨err, hsub hans hr, rfl⟩
  · simp only [Dialogue.finish, Dialogue.run, Call.answer, hans, follow] at h
    cases r <;> cases h

variable (hsub : Sound sub) (hr : ∀ n, r ≠ .error (.depth n))

include hsub hr

theorem sequence_sound : ∀ {x : Expr} {rest : List Expr} {s : Store},
    (Dialogue.sequence env x rest s).finish sub = (.ofExcept r, s') →
    EvaluatesForms x rest env s r s'
  | _, [], _, h => .last (hsub h hr)
  | x, y :: rest, s, h => by
    rcases hsub.ask_cases h hr with ⟨v, s₁, hx, hrest⟩ | ⟨err, hx, rfl⟩
    · exact .next hx (sequence_sound hrest)
    · exact .error hx

theorem call_sound {f : Value} {vs : List Value}
    (h : follow sub (call f vs s) = (.ofExcept r, s')) : Applies f vs s r s' := by
  cases f with
  | prim p =>
    simp only [call] at h
    cases happ : p.apply vs with
    | ok v =>
      rw [happ] at h
      obtain ⟨rfl, rfl⟩ := ofExcept_inj (a := .ok v) h
      exact .prim s' happ
    | error e =>
      rw [happ] at h
      obtain ⟨rfl, rfl⟩ := ofExcept_inj (a := .error _) h
      exact .primError s' happ
  | broken identity name reason =>
    obtain ⟨rfl, rfl⟩ := ofExcept_inj (a := .error _) h
    exact .broken identity name reason vs s'
  | closure identity env params body => exact .closure (hsub h hr)
  | _ =>
    obtain ⟨rfl, rfl⟩ := ofExcept_inj (a := .error _) h
    exact .notProcedure vs s' nofun

theorem operands_sound {f : Value} : ∀ {rest : List Expr} {values : List Value} {s : Store},
    (Dialogue.operands env f values rest s).finish sub = (.ofExcept r, s') →
    (∃ vs s₁, EvaluatesAll rest env s (.ok vs) s₁ ∧ Applies f (values.reverse ++ vs) s₁ r s') ∨
    (∃ err, EvaluatesAll rest env s (.error err) s' ∧ r = .error err)
  | [], values, s, h =>
    .inl ⟨[], s, .nil env s, by rw [List.append_nil]; exact call_sound hsub hr h⟩
  | x :: rest, values, s, h => by
    rcases hsub.ask_cases h hr with ⟨v, s₁, hx, hrest⟩ | ⟨err, hx, rfl⟩
    · rcases operands_sound hrest with ⟨vs, s₂, hvs, hcall⟩ | ⟨err, herr, rfl⟩
      · refine .inl ⟨v :: vs, s₂, .cons hx hvs, ?_⟩
        rwa [List.reverse_cons, List.append_assoc] at hcall
      · exact .inr ⟨err, .later hx herr, rfl⟩
    · exact .inr ⟨err, .error hx, rfl⟩

theorem application_sound {operator : Expr} (hop : ∀ k ∈ Keyword.spellings, operator ≠ .sym k)
    {args : List Expr}
    (h : (Dialogue.application env operator args s).finish sub = (.ofExcept r, s')) :
    Evaluates (.list (operator :: args)) env s r s' := by
  rcases hsub.ask_cases h hr with ⟨f, s₁, hf, hargs⟩ | ⟨err, hf, rfl⟩
  · rcases operands_sound hsub hr hargs with ⟨vs, s₂, hvs, hcall⟩ | ⟨err, herr, rfl⟩
    · exact .apply hop (.cons hf hvs) hcall
    · exact .partError hop (.later hf herr)
  · exact .partError hop (.error hf)

theorem shaped_sound {items : List Expr} (hshaped : Shaped items)
    (h : (Dialogue.step (.list items) env s).finish sub = (.ofExcept r, s')) :
    Evaluates (.list items) env s r s' := by
  cases hshaped with
  | begin x rest => exact .begin (sequence_sound hsub hr h)
  | set x e =>
    rcases hsub.ask_cases h hr with ⟨v, s₁, he, hbind⟩ | ⟨err, he, rfl⟩
    · obtain ⟨rfl, rfl⟩ := ofExcept_inj (a := .ok .nil) hbind
      exact .set he
    · exact .setError he
  -- for a definition the evaluator has followed the rules of another form
  | define x e =>
    have htail : Evaluates (defineValue x e) env s r s' := hsub h hr
    exact htail.of_defineValue
  | procedure f params b body =>
    have htail : Evaluates (defineProcedure f params (b :: body)) env s r s' := hsub h hr
    exact htail.of_defineProcedure
  | cond test yes no =>
    rw [Dialogue.step_cond] at h
    rcases hsub.ask_cases h hr with ⟨v, s₁, htest, hbranch⟩ | ⟨err, htest, rfl⟩
    · have htail := hsub (e := if v.isTrue then yes else no.getD (.list [])) hbranch hr
      cases hv : v.isTrue with
      | true =>
        rw [hv, if_pos rfl] at htail
        exact .condTrue htest hv htail
      | false =>
        rw [hv, if_neg Bool.false_ne_true] at htail
        cases no with
        | some no => exact .condFalse htest hv htail
        | none =>
          have hempty : Evaluates (.list []) env s₁ r s' := htail
          cases hempty
          exact .condMissing htest hv
    · exact .condError htest
  | lambda names body =>
    rw [Dialogue.step_lambda] at h
    obtain ⟨rfl, rfl⟩ := ofExcept_inj (a := .ok _) h
    exact .lambda names body env s

/-- A round of a sound evaluator follows the rules. -/
theorem finish_step_sound : ∀ {e : Expr},
    (Dialogue.step e env s).finish sub = (.ofExcept r, s') → Evaluates e env s r s'
  | .num n, h => by
    obtain ⟨rfl, rfl⟩ := ofExcept_inj (a := .ok (.num n)) h
    exact .num n env s'
  | .str t, h => by
    obtain ⟨rfl, rfl⟩ := ofExcept_inj (a := .ok (.str t)) h
    exact .str t env s'
  | .quoted d, h => by
    obtain ⟨rfl, rfl⟩ := ofExcept_inj (a := .ok d) h
    exact .quoted d env s'
  | .sym x, h => by
    rw [Dialogue.finish_step_sym] at h
    obtain ⟨rfl, rfl⟩ := ofExcept_inj h
    exact .sym x env s'
  | .absent, h => by
    obtain ⟨rfl, rfl⟩ := ofExcept_inj (a := .error (.invalid .absent)) h
    exact .absent env s'
  | .list [], h => by
    obtain ⟨rfl, rfl⟩ := ofExcept_inj (a := .ok .nil) h
    exact .empty env s'
  | .list (operator :: args), h => by
    by_cases hop : ∃ k ∈ Keyword.spellings, operator = .sym k
    · obtain ⟨k, hk, rfl⟩ := hop
      by_cases hshaped : Shaped (.sym k :: args)
      · exact shaped_sound hsub hr hshaped h
      · rw [Dialogue.step_invalid hk hshaped] at h
        obtain ⟨rfl, rfl⟩ := ofExcept_inj (a := .error _) h
        exact .invalid env s' hk hshaped
    · have hop' : ∀ k ∈ Keyword.spellings, operator ≠ .sym k := fun k hk h => hop ⟨k, hk, h⟩
      rw [Dialogue.step_application hop'] at h
      exact application_sound hsub hr hop' h

end

theorem nested_sound (limit : Nat) : ∀ remaining : Nat, Sound (nested limit remaining)
  | 0 => by
    intro e env s r s' h hr
    obtain ⟨rfl, -⟩ := ofExcept_inj (a := .error (.depth limit)) h
    exact absurd rfl (hr limit)
  | remaining + 1 => by
    intro e env s r s' h hr
    rw [nested_succ_eq_finish] at h
    exact finish_step_sound (nested_sound limit remaining) hr h

/-! ### Completeness -/

/-- With enough depth the nested evaluator returns `r`, which is no depth error, and leaves
    `s'`. -/
structure Settles (e : Expr) (env : EnvId) (s : Store) (r : Except EvalError Value) (s' : Store) :
    Prop where
  clear : ∀ n, r ≠ .error (.depth n)
  enough : ∃ n, ∀ limit m, n ≤ m → nested limit m e env s = (.ofExcept r, s')

/-- The same of a dialogue that is held with the nested evaluator. -/
structure Dialogue.Settles (d : Dialogue) (r : Except EvalError Value) (s' : Store) : Prop where
  clear : ∀ n, r ≠ .error (.depth n)
  enough : ∃ n, ∀ limit m, n ≤ m → d.finish (nested limit m) = (.ofExcept r, s')

section

variable {e : Expr} {env : EnvId} {s s' s'' : Store} {r : Except EvalError Value} {v : Value}
  {err : EvalError} {k : Value → Store → Dialogue}

/-- A step costs one level. -/
theorem Settles.of_step (h : (Dialogue.step e env s).Settles r s') : Settles e env s r s' := by
  obtain ⟨n, hn⟩ := h.enough
  refine ⟨h.clear, n + 1, fun limit m hle => ?_⟩
  obtain ⟨m, rfl⟩ : ∃ m', m = m' + 1 := ⟨m - 1, by omega⟩
  rw [nested_succ_eq_finish]
  exact hn limit m (by omega)

namespace Dialogue.Settles

theorem value (v : Value) (s : Store) : (done (.ok (.value v), s)).Settles (.ok v) s :=
  ⟨nofun, 0, fun _ _ _ => rfl⟩

theorem fail (err : EvalError) (hclear : ∀ n, err ≠ .depth n) (s : Store) :
    (done (.error err, s)).Settles (.error err) s :=
  ⟨fun n h => hclear n (Except.error.inj h), 0, fun _ _ _ => rfl⟩

theorem tail (h : Eval.Settles e env s r s') : (done (.ok (.tail e env), s)).Settles r s' :=
  ⟨h.clear, h.enough⟩

theorem ask (h : Eval.Settles e env s (.ok v) s') (hk : (k v s').Settles r s'') :
    (Dialogue.ask ⟨e, env, s⟩ k).Settles r s'' := by
  obtain ⟨n, hn⟩ := h.enough
  obtain ⟨n', hn'⟩ := hk.enough
  refine ⟨hk.clear, max n n', fun limit m hle => ?_⟩
  rw [finish_ask_ok (hn limit m (by omega))]
  exact hn' limit m (by omega)

theorem ask_error (h : Eval.Settles e env s (.error err) s') :
    (Dialogue.ask ⟨e, env, s⟩ k).Settles (.error err) s' := by
  obtain ⟨n, hn⟩ := h.enough
  exact ⟨h.clear, n, fun limit m hle => finish_ask_error (hn limit m hle)⟩

end Dialogue.Settles

namespace Settles

theorem lookup (x : String) (env : EnvId) (s : Store) :
    Settles (.sym x) env s (s.lookup env x) s := by
  refine .of_step ⟨fun n => ?_, 0, fun _ _ _ => Dialogue.finish_step_sym x⟩
  unfold Store.lookup
  split <;> nofun

theorem set (x : String) (h : Settles e env s (.ok v) s') :
    Settles (.list [.sym "set!", .sym x, e]) env s (.ok .nil) (s'.bind env x v) :=
  .of_step (.ask h (.value .nil _))

theorem set_error (x : String) (h : Settles e env s (.error err) s') :
    Settles (.list [.sym "set!", .sym x, e]) env s (.error err) s' :=
  .of_step (.ask_error h)

/-- A definition goes on with the assignment that it stands for and then yields the name. -/
theorem define (x : String) (h : Settles e env s (.ok v) s') :
    Settles (.list [.sym "define", .sym x, e]) env s (.ok (.sym x)) (s'.bind env x v) := by
  have hname : Settles (.quoted (.sym x)) env (s'.bind env x v) (.ok (.sym x))
      (s'.bind env x v) := .of_step (.value (.sym x) _)
  have hbegin : Settles (defineValue x e) env s (.ok (.sym x)) (s'.bind env x v) :=
    .of_step (.ask (h.set x) (.tail hname))
  exact .of_step (.tail hbegin)

theorem define_error (x : String) (h : Settles e env s (.error err) s') :
    Settles (.list [.sym "define", .sym x, e]) env s (.error err) s' := by
  have hbegin : Settles (defineValue x e) env s (.error err) s' :=
    .of_step (.ask_error (h.set_error x))
  exact .of_step (.tail hbegin)

theorem cond {test yes : Expr} (no : Option Expr) (h : Settles test env s (.ok v) s')
    (hbranch : Settles (if v.isTrue then yes else no.getD (.list [])) env s' r s'') :
    Settles (.list (.sym "if" :: test :: yes :: no.toList)) env s r s'' :=
  .of_step (by rw [Dialogue.step_cond]; exact .ask h (.tail hbranch))

theorem cond_error {test : Expr} (yes : Expr) (no : Option Expr)
    (h : Settles test env s (.error err) s') :
    Settles (.list (.sym "if" :: test :: yes :: no.toList)) env s (.error err) s' :=
  .of_step (by rw [Dialogue.step_cond]; exact .ask_error h)

theorem lambda (names : List String) (body : List Expr) (env : EnvId) (s : Store) :
    Settles (.list (.sym "lambda" :: .list (names.map .sym) :: body)) env s
      (.ok (.closure s.newIdentity.1 env names (bodyOf body))) s.newIdentity.2 :=
  .of_step (by rw [Dialogue.step_lambda]; exact .value _ _)

theorem invalid {k : String} {parts : List Expr} (hk : k ∈ Keyword.spellings)
    (h : ¬ Shaped (.sym k :: parts)) (env : EnvId) (s : Store) :
    Settles (.list (.sym k :: parts)) env s (.error (.invalid (.list (.sym k :: parts)))) s :=
  .of_step (by rw [Dialogue.step_invalid hk h]; exact .fail _ (by rintro n ⟨⟩) s)

theorem application {operator : Expr} {args : List Expr}
    (hop : ∀ k ∈ Keyword.spellings, operator ≠ .sym k)
    (h : (Dialogue.application env operator args s).Settles r s') :
    Settles (.list (operator :: args)) env s r s' :=
  .of_step (by rw [Dialogue.step_application hop]; exact h)

end Settles

end

/-- The operands of a call settle: their values as soon as the call with them does, an error at
    once. -/
def OperandsSettle (args : List Expr) (env : EnvId) (s : Store) :
    Except EvalError (List Value) → Store → Prop
  | .ok vs, s' => ∀ (f : Value) (values : List Value) ⦃r s''⦄,
    (Dialogue.done (call f (values.reverse ++ vs) s')).Settles r s'' →
      (Dialogue.operands env f values args s).Settles r s''
  | .error err, s' => ∀ (f : Value) (values : List Value),
    (Dialogue.operands env f values args s).Settles (.error err) s'

-- by induction on the derivation, through all four judgments at once
mutual

theorem Evaluates.settles : ∀ {e : Expr} {env : EnvId} {s : Store} {r : Except EvalError Value}
    {s' : Store}, Evaluates e env s r s' → Settles e env s r s'
  | _, _, _, _, _, .num n env s => .of_step (.value _ s)
  | _, _, _, _, _, .str t env s => .of_step (.value _ s)
  | _, _, _, _, _, .quoted d env s => .of_step (.value d s)
  | _, _, _, _, _, .sym x env s => .lookup x env s
  | _, _, _, _, _, .empty env s => .of_step (.value .nil s)
  | _, _, _, _, _, .absent env s => .of_step (.fail (.invalid .absent) nofun s)
  | _, _, _, _, _, .invalid env s hk h => .invalid hk h env s
  | _, _, _, _, _, .begin h => .of_step h.settles
  | _, _, _, _, _, .set h => h.settles.set _
  | _, _, _, _, _, .setError h => h.settles.set_error _
  | _, _, _, _, _, .define h => h.settles.define _
  | _, _, _, _, _, .defineError h => h.settles.define_error _
  | _, _, _, _, _, .procedure f names b body env s =>
    .of_step (.tail ((Settles.lambda names (b :: body) env s).define f))
  | _, _, _, _, _, .procedureInvalid env s h => by
    refine .of_step (.tail ((Settles.invalid (by decide) (fun hshaped => ?_) env s).define_error _))
    obtain ⟨names, hnames⟩ := hshaped.lambda_inv
    exact h names hnames
  | _, _, _, _, _, .condTrue h hv hyes => .cond _ h.settles (by rw [hv]; exact hyes.settles)
  | _, _, _, _, _, .condFalse h hv hno => .cond (some _) h.settles (by rw [hv]; exact hno.settles)
  | _, _, _, _, _, .condMissing h hv =>
    .cond none h.settles (by rw [hv]; exact .of_step (.value .nil _))
  | _, _, _, _, _, .condError h => h.settles.cond_error _ _
  | _, _, _, _, _, .lambda names body env s => .lambda names body env s
  | _, _, _, _, _, .partError hop (.error h) => .application hop (.ask_error h.settles)
  | _, _, _, _, _, .partError hop (.later (v := f) h hrest) =>
    .application hop (.ask h.settles (hrest.settles f []))
  | _, _, _, _, _, .apply hop (.cons (v := f) h hrest) hcall =>
    .application hop (.ask h.settles (hrest.settles f [] hcall.settles))

theorem EvaluatesForms.settles : ∀ {x : Expr} {rest : List Expr} {env : EnvId} {s : Store}
    {r : Except EvalError Value} {s' : Store}, EvaluatesForms x rest env s r s' →
    (Dialogue.sequence env x rest s).Settles r s'
  | _, _, _, _, _, _, .last h => .tail h.settles
  | _, _, _, _, _, _, .next h hrest => .ask h.settles hrest.settles
  | _, _, _, _, _, _, .error h => .ask_error h.settles

theorem EvaluatesAll.settles : ∀ {args : List Expr} {env : EnvId} {s : Store}
    {q : Except EvalError (List Value)} {s' : Store}, EvaluatesAll args env s q s' →
    OperandsSettle args env s q s'
  | _, _, _, _, _, .nil env s => fun f values r s'' h => by rwa [List.append_nil] at h
  | _, _, _, _, _, .cons (v := v) h hrest => fun f values r s'' hcall => by
    refine .ask h.settles (hrest.settles f (v :: values) ?_)
    rwa [List.reverse_cons, List.append_assoc]
  | _, _, _, _, _, .error h => fun f values => .ask_error h.settles
  | _, _, _, _, _, .later (v := v) h hrest => fun f values =>
    .ask h.settles (hrest.settles f (v :: values))

theorem Applies.settles : ∀ {f : Value} {vs : List Value} {s : Store} {r : Except EvalError Value}
    {s' : Store}, Applies f vs s r s' → (Dialogue.done (call f vs s)).Settles r s'
  | _, _, _, _, _, .prim s h => by simp only [call, h]; exact .value _ s
  | _, _, _, _, _, .primError s h => by simp only [call, h]; exact .fail _ (by rintro n ⟨⟩) s
  | _, _, _, _, _, .broken _ name reason _ s => .fail (.primitive name (.host reason)) nofun s
  | _, _, _, _, _, .closure h => .tail h.settles
  | v, _, _, _, _, .notProcedure vs s h => by
    cases v with
    | prim | broken | closure => exact absurd rfl h
    | _ => exact .fail _ (by rintro n ⟨⟩) s

end

end Eval

open Eval

/-- What an evaluator returns, depth errors apart, follows from the rules. -/
theorem Evaluator.Returns.evaluates {ev : Evaluator} {e : Expr} {env : EnvId} {s s' : Store}
    {r : Except EvalError Value} (h : ev.Returns e env s r s') (hr : ∀ n, r ≠ .error (.depth n)) :
    Evaluates e env s r s' := by
  obtain ⟨fuel, hfuel⟩ := h
  have heval := hfuel fuel (Nat.le_refl _)
  cases hrec : ev.recursive with
  | true =>
    rw [Evaluator.eval_of_recursive hrec] at heval
    exact nested_sound ev.limit ev.limit heval hr
  | false =>
    rw [Evaluator.eval_of_not_recursive hrec] at heval
    obtain ⟨n, hn⟩ := exists_nested_eq_trampoline fuel ev.limit ev.limit ev.limit e env s
      (by rw [heval]; exact Outcome.settled_ofExcept.mpr hr)
    exact nested_sound ev.limit n (hn.trans heval) hr

/-- What follows from the rules is what either evaluator returns from some limit on. -/
theorem Eval.Evaluates.exists_threshold {e : Expr} {env : EnvId} {s s' : Store}
    {r : Except EvalError Value} (h : Evaluates e env s r s') (recursive : Bool) :
    ∃ n, Threshold recursive ⟨e, env, s⟩ r s' n := by
  obtain ⟨hclear, n, hn⟩ := h.settles
  have hsettled : (nested n n e env s).1.Settled := by
    rw [hn n n (Nat.le_refl _)]
    exact Outcome.settled_ofExcept.mpr hclear
  cases recursive with
  | true =>
    obtain ⟨m, hpos, hm⟩ := exists_nested_takes n n ⟨e, env, s⟩ hsettled
    rw [Call.answer, hn n n (Nat.le_refl _)] at hm
    exact ⟨m, threshold_of_nested_takes hclear hpos hm⟩
  | false =>
    have heq := nested_extends_trampoline n (Nat.le_refl n) e env s hsettled
    obtain ⟨m, hpos, hm⟩ := exists_trampoline_takes n n n ⟨e, env, s⟩ (by rwa [Call.answer, heq])
    rw [Call.answer, heq, hn n n (Nat.le_refl _)] at hm
    exact ⟨m, threshold_of_trampoline_takes hclear hpos hm⟩

/-- The evaluators compute the semantics: the outcomes and stores that follow from the rules are
    those that some evaluator returns, depth errors apart. And each of them is returned by
    both kinds of evaluator under every limit from some threshold on, while a smaller limit
    leads to a depth error and to nothing else. -/
theorem evaluates_iff_exists_returns (e : Expr) (env : EnvId) (s s' : Store)
    (r : Except EvalError Value) :
    (Evaluates e env s r s' ↔
      (∀ n, r ≠ .error (.depth n)) ∧ ∃ ev : Evaluator, ev.Returns e env s r s') ∧
    (Evaluates e env s r s' → ∀ recursive, ∃ n, Threshold recursive ⟨e, env, s⟩ r s' n) := by
  refine ⟨⟨fun h => ?_, fun ⟨hr, ev, h⟩ => h.evaluates hr⟩, fun h => h.exists_threshold⟩
  obtain ⟨n, hn⟩ := h.exists_threshold true
  exact ⟨hn.clear, ⟨true, n⟩, hn.enough ⟨true, n⟩ rfl
    (Nat.le_of_eq (Evaluator.limit_ofNat true hn.pos).symm)⟩

/-- The sample call: the rules give it the argument that it passes, and the store that the nested
    evaluator returns under a limit of five, and hence so does the trampoline from some limit on. -/
theorem sampleCall_evaluates :
    Evaluates sampleCall 0 sampleStore (.ok (.num .zero)) (nested 5 5 sampleCall 0 sampleStore).2 ∧
    ∃ n, Threshold false ⟨sampleCall, 0, sampleStore⟩ (.ok (.num .zero))
      (nested 5 5 sampleCall 0 sampleStore).2 n := by
  have hmeaning := evaluates_iff_exists_returns sampleCall 0 sampleStore
    (nested 5 5 sampleCall 0 sampleStore).2 (.ok (.num .zero))
  have hrules := hmeaning.1.mpr ⟨nofun, ⟨true, 5⟩, 0, fun _ _ => rfl⟩
  exact ⟨hrules, hmeaning.2 hrules false⟩

end FlatScheme
