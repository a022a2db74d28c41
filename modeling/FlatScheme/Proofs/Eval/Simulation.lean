import FlatScheme.Proofs.Eval.WellFormed
import Mathlib.Data.List.Forall2

/-!
Two evaluations side by side.

The same expression is evaluated twice, in two environments of two stores. A `Simulation` says when
the stores, the values and the two places of evaluation correspond, and that each single thing an
evaluator does keeps the correspondence: looking up, binding, making a closure, calling. Nothing in
it is about sequences of steps, tails, fuel or depth.

The dialogues of a step then proceed in lockstep (`step_lockstep`), whatever answers come back, as
long as they correspond. So the two evaluations end alike, by every evaluator and with every
limit and fuel (`eval_carries`).

Correspondence is relative to the stores and may rest on what they have handed out so far. Stores
only grow, so it must not be lost when they do.
-/

namespace FlatScheme

/-- Environments and identities once handed out stay so. -/
structure Store.Grows (s s' : Store) : Prop where
  size : s.tables.size ≤ s'.tables.size
  identity : s.nextIdentity ≤ s'.nextIdentity

namespace Store.Grows

variable {s s' s'' : Store}

theorem refl (s : Store) : s.Grows s := ⟨Nat.le_refl _, Nat.le_refl _⟩

theorem trans (h : s.Grows s') (h' : s'.Grows s'') : s.Grows s'' :=
  ⟨Nat.le_trans h.size h'.size, Nat.le_trans h.identity h'.identity⟩

theorem bind (s : Store) (env : EnvId) (x : String) (v : Value) : s.Grows (s.bind env x v) := by
  constructor <;> simp [Store.bind]

theorem allocate (s : Store) (t : Table) : s.Grows (s.allocate t).2 := by
  constructor <;> simp [Store.allocate]

theorem newIdentity (s : Store) : s.Grows s.newIdentity.2 := by
  constructor <;> simp [Store.newIdentity]

end Store.Grows

/-- Two stores side by side. -/
structure Stores where
  left : Store
  right : Store

namespace Stores

def bind (w : Stores) (a b : EnvId) (x : String) (v v' : Value) : Stores :=
  ⟨w.left.bind a x v, w.right.bind b x v'⟩

def extend (w : Stores) (a b : EnvId) (names : List String) (vs vs' : List Value) : Stores :=
  ⟨(w.left.extend a names vs).2, (w.right.extend b names vs').2⟩

def newIdentity (w : Stores) : Stores := ⟨w.left.newIdentity.2, w.right.newIdentity.2⟩

/-- Both stores grow. -/
structure Grow (w w' : Stores) : Prop where
  left : w.left.Grows w'.left
  right : w.right.Grows w'.right

namespace Grow

variable {w w' w'' : Stores}

theorem refl (w : Stores) : w.Grow w := ⟨.refl _, .refl _⟩

theorem trans (h : w.Grow w') (h' : w'.Grow w'') : w.Grow w'' :=
  ⟨h.left.trans h'.left, h.right.trans h'.right⟩

theorem bind (w : Stores) (a b : EnvId) (x : String) (v v' : Value) :
    w.Grow (w.bind a b x v v') := ⟨.bind _ a x v, .bind _ b x v'⟩

theorem extend (w : Stores) (a b : EnvId) (names : List String) (vs vs' : List Value) :
    w.Grow (w.extend a b names vs vs') := ⟨.allocate _ _, .allocate _ _⟩

theorem newIdentity (w : Stores) : w.Grow w.newIdentity := ⟨.newIdentity _, .newIdentity _⟩

end Grow

end Stores

/-- Outcomes that correspond when values do. An error is the same on both sides, except that a
    value that is no procedure is reported on each side as it is there. -/
inductive Outcome.Alike {α : Type} (value : Value → Value → Prop) (good : α → α → Prop) :
    Outcome α → Outcome α → Prop
  | ok {a a' : α} (h : good a a') : Alike value good (.ok a) (.ok a')
  | error (x : EvalError) : Alike value good (.error x) (.error x)
  | notProcedure {v v' : Value} (h : value v v') :
      Alike value good (.error (.notProcedure v)) (.error (.notProcedure v'))
  | outOfFuel : Alike value good .outOfFuel .outOfFuel

/-- Outcomes are the same where only equal values correspond. -/
theorem Outcome.Alike.eq {value : Value → Value → Prop} {o o' : Outcome Value}
    (h : Outcome.Alike value value o o') (hvalue : ∀ {v v'}, value v v' → v = v') : o = o' := by
  cases h with
  | ok hv => rw [hvalue hv]
  | error x => rfl
  | notProcedure hv => rw [hvalue hv]
  | outOfFuel => rfl

namespace Eval

/-! ### What an evaluator relies on -/

/-- The parts of a list that are evaluated in the same environment as the list. A special form of
    the wrong shape has none. -/
def parts : List Expr → List Expr
  | .sym k :: rest =>
    match Keyword.ofName? k, rest with
    | some .begin, rest => rest
    | some .cond, [test, yes] => [test, yes]
    | some .cond, [test, yes, no] => [test, yes, no]
    | some .set, [.sym _, e] => [e]
    | some _, _ => []
    | none, rest => .sym k :: rest
  | items => items

theorem parts_subset (items : List Expr) : parts items ⊆ items := by
  unfold parts
  split
  · next k rest =>
    split
    · exact List.subset_cons_self _ _
    · exact List.subset_cons_self _ _
    · exact List.subset_cons_self _ _
    · exact List.subset_cons_of_subset _ (List.subset_cons_self _ _)
    · exact List.nil_subset _
    · exact List.Subset.refl _
  · exact List.Subset.refl _

theorem parts_application {operator : Expr} (hop : ∀ k ∈ Keyword.spellings, operator ≠ .sym k)
    (args : List Expr) : parts (operator :: args) = operator :: args := by
  cases operator with
  | sym k =>
    have hk : Keyword.ofName? k = none :=
      Keyword.ofName?_eq_none_iff.mpr fun hk => hop k hk rfl
    simp only [parts, hk]
  | _ => rfl

/-- Two values are called alike: as the same primitive, as closures with the same parameters and
    the same body, or both in vain. -/
inductive CalledAlike (enter : EnvId → EnvId → List String → Expr → Prop) : Value → Value → Prop
  | prim (p : Primitive) : CalledAlike enter (.prim p) (.prim p)
  | broken (i j : Nat) (name reason : String) :
      CalledAlike enter (.broken i name reason) (.broken j name reason)
  | closure (i j : Nat) {a b : EnvId} {names : List String} {body : Expr}
      (h : enter a b names body) : CalledAlike enter (.closure i a names body) (.closure j b names body)
  | other {v v' : Value} (h : v.kind ≠ .procedure) (h' : v'.kind ≠ .procedure) :
      CalledAlike enter v v'

/-- A correspondence between two stores, their values, and the environments `a` and `b` in which
    the same expression may be evaluated on them, that everything an evaluator does keeps. -/
structure Simulation where
  store : Stores → Prop
  value : Stores → Value → Value → Prop
  expr : Stores → Expr → (a b : EnvId) → Prop
  value_mono {w w' : Stores} {v v' : Value} : w.Grow w' → value w v v' → value w' v v'
  expr_mono {w w' : Stores} {e : Expr} {a b : EnvId} : w.Grow w' → expr w e a b → expr w' e a b
  plain {w : Stores} {v : Value} : v.IsAtom → value w v v
  isTrue {w : Stores} {v v' : Value} : value w v v' → v.isTrue = v'.isTrue
  apply {w : Stores} {vs vs' : List Value} (p : Primitive) :
    List.Forall₂ (value w) vs vs' → p.apply vs = p.apply vs'
  call {w : Stores} {f f' : Value} : store w → value w f f' →
    CalledAlike (fun a b names body => ∀ vs vs', List.Forall₂ (value w) vs vs' →
      store (w.extend a b names vs vs') ∧
        expr (w.extend a b names vs vs') body w.left.tables.size w.right.tables.size) f f'
  quoted {w : Stores} {d : Value} {a b : EnvId} : expr w (.quoted d) a b → value w d d
  lookup {w : Stores} {x : String} {a b : EnvId} : store w → expr w (.sym x) a b →
    Option.Rel (value w) ((w.left.table a).get? x) ((w.right.table b).get? x)
  empty {w : Stores} {e : Expr} {a b : EnvId} : expr w e a b → expr w (.list []) a b
  parts {w : Stores} {items : List Expr} {e : Expr} {a b : EnvId} :
    expr w (.list items) a b → e ∈ Eval.parts items → expr w e a b
  bind {w : Stores} {x : String} {e : Expr} {a b : EnvId} {v v' : Value} : store w →
    expr w (.list [.sym "set!", .sym x, e]) a b → value w v v' → store (w.bind a b x v v')
  define {w : Stores} {x : String} {e : Expr} {a b : EnvId} :
    expr w (.list [.sym "define", .sym x, e]) a b → expr w (defineValue x e) a b
  procedure {w : Stores} {f : String} {params body : List Expr} {a b : EnvId} :
    expr w (.list (.sym "define" :: .list (.sym f :: params) :: body)) a b →
      expr w (defineProcedure f params body) a b
  lambda {w : Stores} {names : List String} {body : List Expr} {a b : EnvId} : store w →
    expr w (.list (.sym "lambda" :: .list (names.map .sym) :: body)) a b →
      store w.newIdentity ∧ value w.newIdentity
        (.closure w.left.nextIdentity a names (bodyOf body))
        (.closure w.right.nextIdentity b names (bodyOf body))

namespace Simulation

variable (S : Simulation)

/-- Steps that correspond end with values that do, or leave the same expression to be evaluated in
    places that do. -/
inductive Leaves (w : Stores) : Next → Next → Prop
  | value {v v' : Value} (h : S.value w v v') : Leaves w (.value v) (.value v')
  | tail {e : Expr} {a b : EnvId} (h : S.expr w e a b) : Leaves w (.tail e a) (.tail e b)

/-- Computations that started on the stores `w` have ended alike. -/
structure Ends {α : Type} (good : Stores → α → α → Prop) (w : Stores)
    (r r' : Outcome α × Store) : Prop where
  grow : w.Grow ⟨r.2, r'.2⟩
  store : S.store ⟨r.2, r'.2⟩
  outcome : Outcome.Alike (S.value ⟨r.2, r'.2⟩) (good ⟨r.2, r'.2⟩) r.1 r'.1

/-- Dialogues that make the same calls in places that correspond, as long as the answers do. -/
inductive Lockstep : Stores → Dialogue → Dialogue → Prop
  | done {w : Stores} {r r' : Outcome Next × Store} (h : S.Ends S.Leaves w r r') :
      Lockstep w (.done r) (.done r')
  | ask {w : Stores} {e : Expr} {a b : EnvId} {k k' : Value → Store → Dialogue}
      (hstore : S.store w) (he : S.expr w e a b)
      (hk : ∀ w' v v', w.Grow w' → S.store w' → S.value w' v v' →
        Lockstep w' (k v w'.left) (k' v' w'.right)) :
      Lockstep w (.ask ⟨e, a, w.left⟩ k) (.ask ⟨e, b, w.right⟩ k')

/-- The evaluator carries the correspondence from the stores it starts on to those it leaves. -/
def Carries (sub : Expr → EnvId → Run Value) : Prop :=
  ∀ {w : Stores} {e : Expr} {a b : EnvId}, S.store w → S.expr w e a b →
    S.Ends S.value w (sub e a w.left) (sub e b w.right)

variable {S} {α : Type} {good : Stores → α → α → Prop} {w w' : Stores}
  {sub tail : Expr → EnvId → Run Value} {a b : EnvId}

theorem Ends.of_grow {r r' : Outcome α × Store} (hgrow : w.Grow w') (h : S.Ends good w' r r') :
    S.Ends good w r r' :=
  ⟨hgrow.trans h.grow, h.store, h.outcome⟩

/-- Nothing but the outcome is new. -/
theorem Ends.here (hstore : S.store w) {o o' : Outcome α}
    (h : Outcome.Alike (S.value w) (good w) o o') : S.Ends good w (o, w.left) (o', w.right) :=
  ⟨.refl w, hstore, h⟩

theorem Lockstep.run (hsub : S.Carries sub) {d d' : Dialogue} (h : S.Lockstep w d d') :
    S.Ends S.Leaves w (d.run sub) (d'.run sub) := by
  induction h with
  | done h => exact h
  | @ask w e a b k k' hstore he _ ih =>
    have hcall := hsub hstore he
    simp only [Dialogue.run, Call.answer]
    generalize sub e a w.left = r at hcall ⊢
    generalize sub e b w.right = r' at hcall ⊢
    obtain ⟨o, s⟩ := r
    obtain ⟨o', t⟩ := r'
    obtain ⟨hgrow, hstore', houtcome⟩ := hcall
    cases houtcome with
    | ok hv => exact (ih ⟨s, t⟩ _ _ hgrow hstore' hv).of_grow hgrow
    | error x => exact ⟨hgrow, hstore', .error x⟩
    | notProcedure hv => exact ⟨hgrow, hstore', .notProcedure hv⟩
    | outOfFuel => exact ⟨hgrow, hstore', .outOfFuel⟩

/-- A call made on one side is made on the other side too, in a place that corresponds. -/
theorem Lockstep.mem_asked (hsub : S.Carries sub) {d d' : Dialogue} (h : S.Lockstep w d d')
    {c : Call} (hc : c ∈ d.asked sub) :
    ∃ c' : Call, S.store ⟨c.store, c'.store⟩ ∧ S.expr ⟨c.store, c'.store⟩ c.expr c.env c'.env := by
  induction h with
  | done h => cases hc
  | @ask w e a b k k' hstore he _ ih =>
    have hcall := hsub hstore he
    simp only [Dialogue.asked, Call.answer, List.mem_cons] at hc
    rcases hc with rfl | hc
    · exact ⟨⟨e, b, w.right⟩, hstore, he⟩
    · generalize sub e a w.left = r at hcall hc
      generalize sub e b w.right = r' at hcall
      obtain ⟨o, s⟩ := r
      obtain ⟨o', t⟩ := r'
      obtain ⟨hgrow, hstore', houtcome⟩ := hcall
      cases houtcome with
      | ok hv => exact ih ⟨s, t⟩ _ _ hgrow hstore' hv hc
      | _ => cases hc

/-! ### One step -/

theorem sequence_lockstep {x : Expr} {rest : List Expr} (hstore : S.store w)
    (h : ∀ e ∈ x :: rest, S.expr w e a b) :
    S.Lockstep w (Dialogue.sequence a x rest w.left) (Dialogue.sequence b x rest w.right) := by
  induction rest generalizing x w with
  | nil => exact .done (.here hstore (.ok (.tail (h x List.mem_cons_self))))
  | cons y rest ih =>
    refine .ask hstore (h x List.mem_cons_self) ?_
    intro w' _ _ hgrow hstore' _
    refine ih hstore' ?_
    intro e he
    exact S.expr_mono hgrow (h e (List.mem_cons_of_mem x he))

/-- Calling values that correspond with arguments that do. -/
theorem call_ends {f f' : Value} {vs vs' : List Value} (hstore : S.store w) (hf : S.value w f f')
    (hvs : List.Forall₂ (S.value w) vs vs') :
    S.Ends S.Leaves w (Eval.call f vs w.left) (Eval.call f' vs' w.right) := by
  cases S.call hstore hf with
  | prim p =>
    simp only [Eval.call, ← S.apply p hvs]
    cases happ : p.apply vs with
    | ok v => exact .here hstore (.ok (.value (S.plain (p.apply_plain vs v happ))))
    | error e => exact .here hstore (.error _)
  | broken i j name reason => exact .here hstore (.error _)
  | closure i j h =>
    obtain ⟨hstore', hbody⟩ := h vs vs' hvs
    exact ⟨.extend w _ _ _ vs vs', hstore', .ok (.tail hbody)⟩
  | other h h' =>
    have herror : ∀ {v : Value} (args : List Value) (s : Store), v.kind ≠ .procedure →
        Eval.call v args s = (.error (.notProcedure v), s) := by
      intro v args s hv
      cases v with
      | prim | broken | closure => exact absurd rfl hv
      | _ => rfl
    rw [herror vs w.left h, herror vs' w.right h']
    exact .here hstore (.notProcedure hf)

theorem operands_lockstep {f f' : Value} {rest : List Expr} {vs vs' : List Value}
    (hstore : S.store w) (hf : S.value w f f') (hrest : ∀ e ∈ rest, S.expr w e a b)
    (hvs : List.Forall₂ (S.value w) vs vs') :
    S.Lockstep w (Dialogue.operands a f vs rest w.left) (Dialogue.operands b f' vs' rest w.right) := by
  induction rest generalizing vs vs' w with
  | nil => exact .done (call_ends hstore hf (List.rel_reverse hvs))
  | cons x rest ih =>
    refine .ask hstore (hrest x List.mem_cons_self) ?_
    intro w' v v' hgrow hstore' hv
    refine ih hstore' (S.value_mono hgrow hf) ?_ (.cons hv (hvs.imp fun _ _ => S.value_mono hgrow))
    intro e he
    exact S.expr_mono hgrow (hrest e (List.mem_cons_of_mem x he))

theorem application_lockstep {operator : Expr} {args : List Expr} (hstore : S.store w)
    (h : ∀ e ∈ operator :: args, S.expr w e a b) :
    S.Lockstep w (Dialogue.application a operator args w.left)
      (Dialogue.application b operator args w.right) := by
  refine .ask hstore (h operator List.mem_cons_self) ?_
  intro w' f f' hgrow hstore' hf
  refine operands_lockstep hstore' hf ?_ .nil
  intro e he
  exact S.expr_mono hgrow (h e (List.mem_cons_of_mem operator he))

theorem shaped_lockstep {items : List Expr} (hshaped : Shaped items) (hstore : S.store w)
    (he : S.expr w (.list items) a b) :
    S.Lockstep w (Dialogue.step (.list items) a w.left) (Dialogue.step (.list items) b w.right) := by
  cases hshaped with
  | begin x rest => exact sequence_lockstep hstore fun e h => S.parts he h
  | set x e =>
    refine .ask hstore (S.parts he List.mem_cons_self) ?_
    intro w' v v' hgrow hstore' hv
    have hbind := S.bind hstore' (S.expr_mono hgrow he) hv
    exact .done ⟨.bind w' a b x v v', hbind, .ok (.value (S.plain trivial))⟩
  | define x e => exact .done (.here hstore (.ok (.tail (S.define he))))
  | procedure f params body rest => exact .done (.here hstore (.ok (.tail (S.procedure he))))
  | cond test yes no =>
    rw [Dialogue.step_cond, Dialogue.step_cond]
    have htest : S.expr w test a b := by
      cases no <;> exact S.parts he List.mem_cons_self
    have hyes : S.expr w yes a b := by
      cases no <;> exact S.parts he (List.mem_cons_of_mem test List.mem_cons_self)
    refine .ask hstore htest ?_
    intro w' v v' hgrow hstore' hv
    refine .done (.here hstore' (.ok ?_))
    rw [← S.isTrue hv]
    refine .tail (S.expr_mono hgrow ?_)
    cases v.isTrue with
    | true => exact hyes
    | false =>
      cases no with
      | none => exact S.empty he
      | some no => exact S.parts he (.tail test (.tail yes List.mem_cons_self))
  | lambda names body =>
    rw [Dialogue.step_lambda, Dialogue.step_lambda]
    obtain ⟨hstore', hclosure⟩ := S.lambda hstore he
    exact .done ⟨.newIdentity w, hstore', .ok (.value hclosure)⟩

/-- One step on both sides: the same calls in the same order, and the same kind of end. -/
theorem step_lockstep {e : Expr} (hstore : S.store w) (he : S.expr w e a b) :
    S.Lockstep w (Dialogue.step e a w.left) (Dialogue.step e b w.right) := by
  cases e with
  | num n => exact .done (.here hstore (.ok (.value (S.plain trivial))))
  | str t => exact .done (.here hstore (.ok (.value (S.plain trivial))))
  | quoted d => exact .done (.here hstore (.ok (.value (S.quoted he))))
  | absent => exact .done (.here hstore (.error _))
  | sym x =>
    refine .done ?_
    have hlookup := S.lookup hstore he
    simp only [step, Bind.bind, Run.bind, Run.lookup, Store.lookup]
    revert hlookup
    generalize (w.left.table a).get? x = l
    generalize (w.right.table b).get? x = r
    intro hlookup
    cases hlookup with
    | some hv => exact .here hstore (.ok (.value hv))
    | none => exact .here hstore (.error _)
  | list items =>
    cases items with
    | nil => exact .done (.here hstore (.ok (.value (S.plain trivial))))
    | cons operator args =>
      by_cases hop : ∃ k ∈ Keyword.spellings, operator = .sym k
      · obtain ⟨k, hk, rfl⟩ := hop
        by_cases hshaped : Shaped (.sym k :: args)
        · exact shaped_lockstep hshaped hstore he
        · rw [Dialogue.step_invalid hk hshaped, Dialogue.step_invalid hk hshaped]
          exact .done (.here hstore (.error _))
      · have hop' : ∀ k ∈ Keyword.spellings, operator ≠ .sym k := fun k hk h => hop ⟨k, hk, h⟩
        rw [Dialogue.step_application hop', Dialogue.step_application hop']
        refine application_lockstep hstore ?_
        intro e h
        exact S.parts he (by rwa [parts_application hop'])

theorem step_ends (hsub : S.Carries sub) {e : Expr} (hstore : S.store w) (he : S.expr w e a b) :
    S.Ends S.Leaves w (step sub e a w.left) (step sub e b w.right) := by
  rw [step_eq_run, step_eq_run]
  exact (step_lockstep hstore he).run hsub

/-! ### Runs -/

theorem follow_ends (htail : S.Carries tail) {r r' : Outcome Next × Store}
    (h : S.Ends S.Leaves w r r') : S.Ends S.value w (follow tail r) (follow tail r') := by
  obtain ⟨o, s⟩ := r
  obtain ⟨o', t⟩ := r'
  obtain ⟨hgrow, hstore, houtcome⟩ := h
  cases houtcome with
  | ok hnext =>
    cases hnext with
    | value hv => exact ⟨hgrow, hstore, .ok hv⟩
    | tail he => exact (htail (w := ⟨s, t⟩) hstore he).of_grow hgrow
  | error x => exact ⟨hgrow, hstore, .error x⟩
  | notProcedure hv => exact ⟨hgrow, hstore, .notProcedure hv⟩
  | outOfFuel => exact ⟨hgrow, hstore, .outOfFuel⟩

variable (S)

theorem nested_carries (limit remaining : Nat) : S.Carries (nested limit remaining) := by
  induction remaining with
  | zero =>
    intro w e a b hstore he
    exact .here hstore (.error _)
  | succ remaining ih =>
    intro w e a b hstore he
    rw [nested_succ, nested_succ]
    exact follow_ends ih (step_ends ih hstore he)

theorem bounce_carries (hsub : S.Carries sub) (fuel : Nat) : S.Carries (bounce sub fuel) := by
  induction fuel with
  | zero =>
    intro w e a b hstore he
    exact .here hstore .outOfFuel
  | succ fuel ih =>
    intro w e a b hstore he
    rw [bounce_succ, bounce_succ]
    exact follow_ends ih (step_ends hsub hstore he)

theorem trampoline_carries (fuel limit remaining : Nat) :
    S.Carries (trampoline fuel limit remaining) := by
  induction remaining with
  | zero =>
    intro w e a b hstore he
    exact .here hstore (.error _)
  | succ remaining ih => exact S.bounce_carries ih fuel

/-- Evaluations of the same expression in places that correspond end alike. -/
theorem eval_carries (ev : Evaluator) (fuel : Nat) : S.Carries (ev.eval fuel) := by
  cases hrec : ev.recursive with
  | true =>
    rw [Evaluator.eval_of_recursive hrec]
    exact S.nested_carries ev.limit ev.limit
  | false =>
    rw [Evaluator.eval_of_not_recursive hrec]
    exact S.trampoline_carries fuel ev.limit ev.limit

end Simulation

end Eval

end FlatScheme
