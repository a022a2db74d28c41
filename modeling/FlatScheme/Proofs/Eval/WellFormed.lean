import FlatScheme.Proofs.Eval.Forms
import FlatScheme.Proofs.Eval.Limits

/-!
Well-formed programs never meet an invalid form.

An expression is well formed when each special form in it has its right shape, the bodies of its
procedures are not empty, and its quoted data hold no closures. A body is evaluated when its closure
is called, at any later time and from anywhere, so the store has to be good as well: each closure in
each table must have a well-formed body.

A step keeps all of this (`step_safe`). It does not end in an invalid form, the closures that it makes
or passes on have well-formed bodies, and what it leaves to be done is well formed: the expressions
that a `define` stands for among them. So do whole evaluations, however they end, and sequences of
them.
-/

namespace FlatScheme

/-! ### Well-formed expressions, values and stores -/

/-- The body of every closure in the value satisfies `P`. -/
def Value.EachBody (P : Expr → Prop) : Value → Prop
  | .pair car cdr => car.EachBody P ∧ cdr.EachBody P
  | .closure _ _ _ body => P body
  | _ => True

/-- There is no closure in the value. -/
abbrev Value.ClosureFree (v : Value) : Prop := v.EachBody fun _ => False

theorem Value.EachBody.mono {P Q : Expr → Prop} (hPQ : ∀ e, P e → Q e) :
    ∀ {v : Value}, v.EachBody P → v.EachBody Q
  | .pair _ _, h => ⟨h.1.mono hPQ, h.2.mono hPQ⟩
  | .closure _ _ _ body, h => hPQ body h
  | .nil, _ | .emptyPair, _ | .num _, _ | .str _, _ | .sym _, _ | .bool _, _ | .prim _, _
  | .broken _ _ _, _ => trivial

/-- The value is an empty list, a number, a string or a boolean: what evaluation makes by itself. -/
def Value.IsAtom : Value → Prop
  | .nil | .num _ | .str _ | .bool _ => True
  | _ => False

theorem Value.IsAtom.closureFree {v : Value} (h : v.IsAtom) : v.ClosureFree := by
  cases v with
  | pair | closure => exact h.elim
  | _ => trivial

/-- Every special form in the expression has its right shape, with a body that is not empty where
    there is one. -/
inductive Expr.WellFormed : Expr → Prop
  | num (n : Number) : WellFormed (.num n)
  | str (t : String) : WellFormed (.str t)
  | sym (x : String) : WellFormed (.sym x)
  | quoted {d : Value} (h : d.ClosureFree) : WellFormed (.quoted d)
  | empty : WellFormed (.list [])
  | begin {x : Expr} {rest : List Expr} (h : ∀ e ∈ x :: rest, WellFormed e) :
      WellFormed (.list (.sym "begin" :: x :: rest))
  | set (x : String) {e : Expr} (h : WellFormed e) : WellFormed (.list [.sym "set!", .sym x, e])
  | define (x : String) {e : Expr} (h : WellFormed e) :
      WellFormed (.list [.sym "define", .sym x, e])
  | procedure (f : String) (names : List String) {b : Expr} {body : List Expr}
      (h : ∀ e ∈ b :: body, WellFormed e) :
      WellFormed (.list (.sym "define" :: .list (.sym f :: names.map .sym) :: b :: body))
  | lambda (names : List String) {b : Expr} {body : List Expr}
      (h : ∀ e ∈ b :: body, WellFormed e) :
      WellFormed (.list (.sym "lambda" :: .list (names.map .sym) :: b :: body))
  | cond {test yes : Expr} {no : Option Expr} (htest : WellFormed test) (hyes : WellFormed yes)
      (hno : ∀ e ∈ no, WellFormed e) :
      WellFormed (.list (.sym "if" :: test :: yes :: no.toList))
  | application {operator : Expr} {args : List Expr}
      (hop : ∀ k ∈ Keyword.spellings, operator ≠ .sym k)
      (h : ∀ e ∈ operator :: args, WellFormed e) : WellFormed (.list (operator :: args))

/-- Every closure in the value has a well-formed body. -/
def Value.WellFormed (v : Value) : Prop := v.EachBody Expr.WellFormed

/-- Every closure in every table has a well-formed body. -/
def Store.WellFormed (s : Store) : Prop :=
  ∀ env x v, (s.table env).get? x = some v → v.WellFormed

theorem Value.ClosureFree.wellFormed {v : Value} (h : v.ClosureFree) : v.WellFormed :=
  h.mono fun _ => False.elim

/-- What was bound one after the other, or there before. -/
theorem Table.get?_foldl_insert {α : Type} (name : α → String) (value : α → Value) {x : String}
    {v : Value} (entries : List α) (t : Table)
    (h : (entries.foldl (fun t a => t.insert (name a) (value a)) t).get? x = some v) :
    (∃ a ∈ entries, v = value a) ∨ t.get? x = some v := by
  induction entries generalizing t with
  | nil => exact .inr h
  | cons a entries ih =>
    rcases ih _ h with ⟨b, hb, hv⟩ | hv
    · exact .inl ⟨b, List.mem_cons_of_mem a hb, hv⟩
    · rw [get?_insert] at hv
      split at hv
      · exact .inl ⟨a, List.mem_cons_self, (Option.some.inj hv).symm⟩
      · exact .inr hv

theorem Store.table_allocate_of_ne (s : Store) (t : Table) {env : EnvId}
    (h : env ≠ s.tables.size) : (s.allocate t).2.table env = s.table env := by
  simp [allocate, table, Array.getElem?_push, h]

theorem Store.ne_invalid_of_lookup {s : Store} {env : EnvId} {x : String} {err : EvalError}
    (h : s.lookup env x = .error err) (form : Expr) : err ≠ .invalid form := by
  unfold lookup at h
  split at h <;> cases h
  nofun

namespace Store.WellFormed

variable {s : Store}

theorem empty : Store.empty.WellFormed := fun _ _ _ h => nomatch h

theorem lookup (hs : s.WellFormed) {env : EnvId} {x : String} {v : Value}
    (h : s.lookup env x = .ok v) : v.WellFormed := by
  unfold Store.lookup at h
  split at h
  · next hget =>
    cases h
    exact hs env x v hget
  · cases h

theorem bind (hs : s.WellFormed) (env : EnvId) (x : String) {v : Value} (hv : v.WellFormed) :
    (s.bind env x v).WellFormed := by
  intro env' y w hw
  rw [Store.table_bind] at hw
  split at hw
  · rw [Table.get?_insert] at hw
    split at hw
    · exact Option.some.inj hw ▸ hv
    · exact hs env y w hw
  · exact hs env' y w hw

theorem allocate (hs : s.WellFormed) {t : Table} (ht : ∀ x v, t.get? x = some v → v.WellFormed) :
    (s.allocate t).2.WellFormed := by
  intro env x v hv
  by_cases hnew : env = s.tables.size
  · have htable : (s.allocate t).2.table env = t := hnew ▸ Store.table_allocate_self s t
    rw [htable] at hv
    exact ht x v hv
  · rw [Store.table_allocate_of_ne s t hnew] at hv
    exact hs env x v hv

theorem extend (hs : s.WellFormed) (env : EnvId) (names : List String) {values : List Value}
    (hvalues : ∀ v ∈ values, v.WellFormed) : (s.extend env names values).2.WellFormed := by
  refine hs.allocate fun x v hv => ?_
  rcases Table.get?_foldl_insert Prod.fst Prod.snd _ _ hv with ⟨p, hp, rfl⟩ | hv
  · exact hvalues p.2 (List.of_mem_zip hp).2
  · exact hs env x v hv

/-- A new global environment holds no closures. -/
theorem newGlobal (hs : s.WellFormed) : s.newGlobal.2.WellFormed := by
  refine hs.allocate fun x v hv => ?_
  rcases Table.get?_foldl_insert Primitive.name Value.prim _ _ hv with ⟨p, -, rfl⟩ | hv
  · trivial
  · cases hv

theorem newIdentity (hs : s.WellFormed) : s.newIdentity.2.WellFormed := hs

end Store.WellFormed

/-! ### Primitives -/

namespace Primitive

/-- If a value comes out, it is an atom. -/
def Plain (m : Except PrimitiveError Value) : Prop := ∀ v, m = .ok v → v.IsAtom

theorem Plain.ok {v : Value} (h : v.IsAtom) : Plain (.ok v) := by
  rintro w ⟨⟩
  exact h

theorem Plain.error (e : PrimitiveError) : Plain (.error e) := by
  rintro v ⟨⟩

theorem Plain.bind {α : Type} {m : Except PrimitiveError α} {k : α → Except PrimitiveError Value}
    (h : ∀ a, Plain (k a)) : Plain (m >>= k) := by
  intro v hv
  cases m with
  | ok a => exact h a v hv
  | error e => cases hv

theorem arithmetic_plain (operator : String) (f : Number → Number → Number) (args : List Value) :
    Plain (arithmetic operator f args) := .bind fun _ => .ok trivial

theorem addition_plain (args : List Value) : Plain (addition args) := by
  unfold addition
  split
  · exact .bind fun _ => .bind fun _ => .ok trivial
  · exact arithmetic_plain "+" .add _

theorem divide_plain (args : List Value) : Plain (divide args) := by
  refine .bind fun ns => ?_
  split
  · exact .ok trivial
  · exact .bind fun _ => .ok trivial

theorem logical_plain (operator : String) (f : List Bool → Bool) (args : List Value) :
    Plain (logical operator f args) :=
  .bind fun _ => .bind fun _ => .ok trivial

theorem comparison_plain (operator : String) (test : Ordering → Bool) (args : List Value) :
    Plain (comparison operator test args) := .bind fun _ => .bind fun _ => .ok trivial

/-- Primitives yield numbers, strings and booleans. -/
theorem apply_plain (p : Primitive) (args : List Value) : Plain (p.apply args) := by
  cases p with
  | add => exact addition_plain args
  | sub | mul => exact arithmetic_plain _ _ args
  | div => exact divide_plain args
  | floor | mod => exact .bind fun _ => .ok trivial
  | and | or => exact logical_plain _ _ args
  | not | equal | notEqual =>
    simp only [apply, negation, allEqual, different]
    split
    · exact .ok trivial
    · exact .error _
  | less | lessEqual | greater | greaterEqual => exact comparison_plain _ _ args

end Primitive

/-! ### One step -/

/-- A value, or what is left to be done, that is well formed. -/
def Next.WellFormed : Next → Prop
  | .value v => v.WellFormed
  | .tail e _ => e.WellFormed

namespace Eval

/-- A computation has not ended in an invalid form, and what it yields and leaves is good. -/
inductive Safe {α : Type} (good : α → Prop) : Outcome α × Store → Prop
  | ok {a : α} {s : Store} (ha : good a) (hs : s.WellFormed) : Safe good (.ok a, s)
  | error {x : EvalError} {s : Store} (hx : ∀ form, x ≠ .invalid form) (hs : s.WellFormed) :
      Safe good (.error x, s)
  | outOfFuel {s : Store} (hs : s.WellFormed) : Safe good (.outOfFuel, s)

namespace Safe

variable {α : Type} {good : α → Prop} {p : Outcome α × Store}

theorem store (h : Safe good p) : p.2.WellFormed := by
  cases h <;> assumption

theorem result (h : Safe good p) {a : α} (ha : p.1 = .ok a) : good a := by
  cases h with
  | ok hgood => exact Outcome.ok.inj ha ▸ hgood
  | error => cases ha
  | outOfFuel => cases ha

theorem not_invalid (h : Safe good p) (form : Expr) : p.1 ≠ .error (.invalid form) := by
  cases h with
  | ok => nofun
  | error hx => exact fun heq => hx form (Outcome.error.inj heq)
  | outOfFuel => nofun

end Safe

/-- Well-formed expressions are evaluated safely on well-formed stores. -/
def SafeOnWellFormed (sub : Expr → EnvId → Run Value) : Prop :=
  ∀ e env s, e.WellFormed → s.WellFormed → Safe Value.WellFormed (sub e env s)

section

variable {sub : Expr → EnvId → Run Value} {env : EnvId} {s : Store}

theorem safe_ask (hsub : SafeOnWellFormed sub) {e : Expr} {k : Value → Store → Dialogue}
    (he : e.WellFormed) (hs : s.WellFormed)
    (hk : ∀ v s', v.WellFormed → s'.WellFormed → Safe Next.WellFormed ((k v s').run sub)) :
    Safe Next.WellFormed ((Dialogue.ask ⟨e, env, s⟩ k).run sub) := by
  have hcall := hsub e env s he hs
  simp only [Dialogue.run, Call.answer]
  rcases hans : sub e env s with ⟨v | x | _, s'⟩ <;> rw [hans] at hcall
  · cases hcall with
    | ok hv hs' => exact hk v s' hv hs'
  · cases hcall with
    | error hx hs' => exact .error hx hs'
  · cases hcall with
    | outOfFuel hs' => exact .outOfFuel hs'

theorem sequence_safe (hsub : SafeOnWellFormed sub) (x : Expr) (rest : List Expr)
    (h : ∀ e ∈ x :: rest, e.WellFormed) (hs : s.WellFormed) :
    Safe Next.WellFormed ((Dialogue.sequence env x rest s).run sub) := by
  induction rest generalizing x s with
  | nil => exact .ok (h x List.mem_cons_self) hs
  | cons y rest ih =>
    refine safe_ask hsub (h x List.mem_cons_self) hs fun v s' _ hs' => ?_
    exact ih y (fun e he => h e (List.mem_cons_of_mem x he)) hs'

theorem call_safe {f : Value} {args : List Value} (hf : f.WellFormed)
    (hargs : ∀ v ∈ args, v.WellFormed) (hs : s.WellFormed) :
    Safe Next.WellFormed (call f args s) := by
  cases f with
  | prim p =>
    simp only [call]
    cases happ : p.apply args with
    | ok v => exact .ok (p.apply_plain args v happ).closureFree.wellFormed hs
    | error e => exact .error (by rintro form ⟨⟩) hs
  | closure _ env' params body => exact .ok hf (hs.extend env' params hargs)
  | _ => exact .error (by rintro form ⟨⟩) hs

theorem operands_safe (hsub : SafeOnWellFormed sub) {f : Value} (hf : f.WellFormed)
    (rest : List Expr) (values : List Value) (hrest : ∀ e ∈ rest, e.WellFormed)
    (hvalues : ∀ v ∈ values, v.WellFormed) (hs : s.WellFormed) :
    Safe Next.WellFormed ((Dialogue.operands env f values rest s).run sub) := by
  induction rest generalizing values s with
  | nil => exact call_safe hf (fun v hv => hvalues v (List.mem_reverse.mp hv)) hs
  | cons x rest ih =>
    refine safe_ask hsub (hrest x List.mem_cons_self) hs fun v s' hv hs' => ?_
    exact ih (v :: values) (fun e he => hrest e (List.mem_cons_of_mem x he))
      (List.forall_mem_cons.mpr ⟨hv, hvalues⟩) hs'

theorem application_safe (hsub : SafeOnWellFormed sub) {operator : Expr} {args : List Expr}
    (h : ∀ e ∈ operator :: args, e.WellFormed) (hs : s.WellFormed) :
    Safe Next.WellFormed ((Dialogue.application env operator args s).run sub) := by
  refine safe_ask hsub (h operator List.mem_cons_self) hs fun f s' hf hs' => ?_
  exact operands_safe hsub hf args [] (fun e he => h e (List.mem_cons_of_mem operator he))
    (fun v hv => nomatch hv) hs'

/-- An alternate that is missing is the empty list. -/
theorem wellFormed_getD {no : Option Expr} (h : ∀ e ∈ no, e.WellFormed) :
    (no.getD (.list [])).WellFormed := by
  cases no with
  | none => exact .empty
  | some e => exact h e rfl

/-- What a definition stands for is well formed too. -/
theorem defineValue_wellFormed (x : String) {e : Expr} (h : e.WellFormed) :
    (defineValue x e).WellFormed := by
  refine .begin fun y hy => ?_
  rcases List.mem_cons.mp hy with rfl | hy
  · exact .set x h
  · obtain rfl := List.mem_singleton.mp hy
    exact .quoted trivial

theorem step_safe (hsub : SafeOnWellFormed sub) {e : Expr} (he : e.WellFormed)
    (hs : s.WellFormed) : Safe Next.WellFormed (step sub e env s) := by
  rw [step_eq_run]
  cases he with
  | num n => exact .ok trivial hs
  | str t => exact .ok trivial hs
  | sym x =>
    simp only [Dialogue.step, Dialogue.run, step, bind, Run.bind, Run.lookup]
    cases hx : s.lookup env x with
    | ok v => exact .ok (hs.lookup hx) hs
    | error err => exact .error (Store.ne_invalid_of_lookup hx) hs
  | quoted h => exact .ok h.wellFormed hs
  | empty => exact .ok trivial hs
  | begin h => exact sequence_safe hsub _ _ h hs
  | set x h =>
    exact safe_ask hsub h hs fun v s' hv hs' => .ok trivial (hs'.bind env x hv)
  | define x h => exact .ok (defineValue_wellFormed x h) hs
  | procedure f names h => exact .ok (.define f (.lambda names h)) hs
  | lambda names h =>
    rw [Dialogue.step_lambda]
    exact .ok (.begin h) hs.newIdentity
  | cond htest hyes hno =>
    rw [Dialogue.step_cond]
    refine safe_ask hsub htest hs fun v s' _ hs' => .ok ?_ hs'
    split
    · exact hyes
    · exact wellFormed_getD hno
  | application hop h =>
    rw [Dialogue.step_application hop]
    exact application_safe hsub h hs

/-! ### Runs -/

theorem follow_safe {tail : Expr → EnvId → Run Value} (htail : SafeOnWellFormed tail)
    {r : Outcome Next × Store} (hr : Safe Next.WellFormed r) :
    Safe Value.WellFormed (follow tail r) := by
  cases hr with
  | @ok next s' hnext hs =>
    cases next with
    | value v => exact .ok hnext hs
    | tail e env => exact htail e env s' hnext hs
  | error hx hs => exact .error hx hs
  | outOfFuel hs => exact .outOfFuel hs

theorem nested_safe (limit remaining : Nat) : SafeOnWellFormed (nested limit remaining) := by
  induction remaining with
  | zero => exact fun e env s _ hs => .error (by rintro form ⟨⟩) hs
  | succ remaining ih =>
    intro e env s he hs
    rw [nested_succ]
    exact follow_safe ih (step_safe ih he hs)

theorem bounce_safe (hsub : SafeOnWellFormed sub) (fuel : Nat) :
    SafeOnWellFormed (bounce sub fuel) := by
  induction fuel with
  | zero => exact fun e env s _ hs => .outOfFuel hs
  | succ fuel ih =>
    intro e env s he hs
    rw [bounce_succ]
    exact follow_safe ih (step_safe hsub he hs)

theorem trampoline_safe (fuel limit remaining : Nat) :
    SafeOnWellFormed (trampoline fuel limit remaining) := by
  induction remaining with
  | zero => exact fun e env s _ hs => .error (by rintro form ⟨⟩) hs
  | succ remaining ih => exact bounce_safe ih fuel

end

end Eval

open Eval

theorem Evaluator.eval_safe (ev : Evaluator) (fuel : Nat) : SafeOnWellFormed (ev.eval fuel) := by
  cases hrec : ev.recursive with
  | true =>
    rw [eval_of_recursive hrec]
    exact nested_safe ev.limit ev.limit
  | false =>
    rw [eval_of_not_recursive hrec]
    exact trampoline_safe fuel ev.limit ev.limit

/-! ### Sessions -/

/-- One evaluation of a session: of what, where, by which evaluator and with how much fuel. -/
structure Request where
  expr : Expr
  env : EnvId
  evaluator : Evaluator
  fuel : Nat

/-- Evaluate one expression after the other, whatever comes of those before. -/
def session : List Request → Store → List (Outcome Value) × Store
  | [], s => ([], s)
  | q :: rest, s =>
    match q.evaluator.eval q.fuel q.expr q.env s with
    | (outcome, s') =>
      match session rest s' with
      | (outcomes, s'') => (outcome :: outcomes, s'')

theorem session_safe (requests : List Request) {s : Store} (hs : s.WellFormed)
    (h : ∀ q ∈ requests, q.expr.WellFormed) :
    (∀ outcome ∈ (session requests s).1, ∀ form, outcome ≠ .error (.invalid form)) ∧
      (session requests s).2.WellFormed := by
  induction requests generalizing s with
  | nil => exact ⟨fun _ houtcome => absurd houtcome List.not_mem_nil, hs⟩
  | cons q rest ih =>
    have hfirst := q.evaluator.eval_safe q.fuel q.expr q.env s (h q List.mem_cons_self) hs
    have hrest := ih hfirst.store fun q' hq' => h q' (List.mem_cons_of_mem q hq')
    exact ⟨List.forall_mem_cons.mpr ⟨hfirst.not_invalid, hrest.1⟩, hrest.2⟩

/-- Well-formed programs never meet an invalid form. On a store whose closures have well-formed
    bodies, such as one that holds a new global environment, the evaluation of a well-formed
    expression does not end in an invalid form, under any limit, and the closures in the store that
    it leaves and in its result have well-formed bodies again. So no evaluation in a sequence of
    them ends in an invalid form. -/
theorem wellFormed_never_invalid :
    Store.empty.newGlobal.2.WellFormed ∧
    (∀ s : Store, s.WellFormed → s.newGlobal.2.WellFormed) ∧
    (∀ (ev : Evaluator) (fuel : Nat) (e : Expr) (env : EnvId) (s : Store),
      e.WellFormed → s.WellFormed →
      (∀ form, (ev.eval fuel e env s).1 ≠ .error (.invalid form)) ∧
      (ev.eval fuel e env s).2.WellFormed ∧
      ∀ v, (ev.eval fuel e env s).1 = .ok v → v.WellFormed) ∧
    (∀ (requests : List Request) (s : Store),
      (∀ q ∈ requests, q.expr.WellFormed) → s.WellFormed →
      ∀ outcome ∈ (session requests s).1, ∀ form, outcome ≠ .error (.invalid form)) := by
  refine ⟨Store.WellFormed.empty.newGlobal, fun s hs => hs.newGlobal, ?_, ?_⟩
  · intro ev fuel e env s he hs
    have hsafe := ev.eval_safe fuel e env s he hs
    exact ⟨hsafe.not_invalid, hsafe.store, fun v hv => hsafe.result hv⟩
  · intro requests s h hs
    exact (session_safe requests hs h).1

/-- `(define (twice x) (+ x x))`, a call of it with an unbound variable, and one with zero. -/
def sampleProgram : List Expr :=
  [.list [.sym "define", .list [.sym "twice", .sym "x"], .list [.sym "+", .sym "x", .sym "x"]],
    .list [.sym "twice", .sym "y"], .list [.sym "twice", .num .zero]]

theorem sampleProgram_wellFormed (e : Expr) (he : e ∈ sampleProgram) : e.WellFormed := by
  have hname : ∀ f ∈ ["twice", "+"], ∀ k ∈ Keyword.spellings, Expr.sym f ≠ .sym k := by
    simp [Keyword.spellings]
  simp only [sampleProgram, List.mem_cons, List.not_mem_nil, or_false] at he
  rcases he with rfl | rfl | rfl
  · refine .procedure "twice" ["x"] fun b hb => ?_
    obtain rfl := List.mem_singleton.mp hb
    refine .application (hname "+" (by simp)) ?_
    simp only [List.forall_mem_cons, List.not_mem_nil, false_implies, implies_true, and_true]
    exact ⟨.sym "+", .sym "x", .sym "x"⟩
  · refine .application (hname "twice" (by simp)) ?_
    simp only [List.forall_mem_cons, List.not_mem_nil, false_implies, implies_true, and_true]
    exact ⟨.sym "twice", .sym "y"⟩
  · refine .application (hname "twice" (by simp)) ?_
    simp only [List.forall_mem_cons, List.not_mem_nil, false_implies, implies_true, and_true]
    exact ⟨.sym "twice", .num .zero⟩

/-- The sample program in a new global environment, where the second evaluation fails. -/
theorem sampleProgram_never_invalid :
    (∀ e ∈ sampleProgram, e.WellFormed) ∧ Store.empty.newGlobal.2.WellFormed ∧
    (session (sampleProgram.map (⟨·, 0, ⟨true, 5⟩, 0⟩)) Store.empty.newGlobal.2).1 =
      [.ok (.sym "twice"), .error (.unbound "y"), .ok (.num .zero)] ∧
    ∀ outcome ∈ (session (sampleProgram.map (⟨·, 0, ⟨true, 5⟩, 0⟩)) Store.empty.newGlobal.2).1,
      ∀ form, outcome ≠ .error (.invalid form) := by
  obtain ⟨hglobal, -, -, hsession⟩ := wellFormed_never_invalid
  refine ⟨sampleProgram_wellFormed, hglobal, rfl, hsession _ _ (fun q hq => ?_) hglobal⟩
  obtain ⟨e, he, rfl⟩ := List.mem_map.mp hq
  exact sampleProgram_wellFormed e he

end FlatScheme
