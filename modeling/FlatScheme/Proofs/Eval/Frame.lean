import FlatScheme.Proofs.Eval.Limits

/-!
What an evaluation may write.

An evaluation writes into the environment it takes place in, and into environments that it makes
itself. Every other environment keeps its table, the ones captured by the closures it calls among
them. In its own environment no name loses its binding, and only the *targets* of the expression
change: the names that stand in a `set!` or a `define` outside the bodies of procedures.

The relation `Frame` says this of two stores. It composes along the calls of a step, and a step
either stays in its environment, with no further targets, or goes on in one that it has just made
(`step_confined`); so it holds along whole runs, whatever their outcome.
-/

namespace FlatScheme

namespace Expr

mutual

/-- The names that evaluating an expression may bind in its own environment: the targets of `set!`
    and `define`, the bodies of procedures and quoted data left out. -/
def targets : Expr → List String
  | .list (.sym k :: parts) =>
    match Keyword.ofName? k with
    | some .set =>
      match parts with
      | [.sym x, e] => x :: e.targets
      | _ => []
    | some .define =>
      match parts with
      | [.sym x, e] => x :: e.targets
      | .list (.sym f :: _) :: _ :: _ => [f]
      | _ => []
    | some .lambda => []
    | _ => targetsOfAll parts
  | .list parts => targetsOfAll parts
  | _ => []

/-- The targets of several expressions. -/
def targetsOfAll : List Expr → List String
  | [] => []
  | e :: es => e.targets ++ targetsOfAll es

end

theorem targets_subset_of_mem {e : Expr} : ∀ {es : List Expr}, e ∈ es → e.targets ⊆ targetsOfAll es
  | e' :: es, h => by
    rw [targetsOfAll]
    rcases List.mem_cons.mp h with rfl | h
    · exact List.subset_append_left _ _
    · exact List.Subset.trans (targets_subset_of_mem h) (List.subset_append_right _ _)

theorem targetsOfAll_eq_nil : ∀ {es : List Expr}, (∀ e ∈ es, e.targets = []) → targetsOfAll es = []
  | [], _ => rfl
  | e :: es, h => by
    rw [targetsOfAll, h e List.mem_cons_self, List.nil_append]
    exact targetsOfAll_eq_nil fun e' he' => h e' (List.mem_cons_of_mem e he')

/-- The targets of a `begin` or an `if` are those of its parts. -/
theorem targets_parts {k : String}
    (h : Keyword.ofName? k = some .begin ∨ Keyword.ofName? k = some .cond)
    (parts : List Expr) : targets (.list (.sym k :: parts)) = targetsOfAll parts := by
  rw [targets.eq_def]
  rcases h with h | h <;> simp only [h]

theorem targets_set {k : String} (h : Keyword.ofName? k = some .set) (x : String) (e : Expr) :
    targets (.list [.sym k, .sym x, e]) = x :: e.targets := by
  rw [targets.eq_def]
  simp only [h]

theorem targets_define {k : String} (h : Keyword.ofName? k = some .define) (x : String) (e : Expr) :
    targets (.list [.sym k, .sym x, e]) = x :: e.targets := by
  rw [targets.eq_def]
  simp only [h]

theorem targets_define_procedure {k : String} (h : Keyword.ofName? k = some .define) (f : String)
    (params : List Expr) (b : Expr) (body : List Expr) :
    targets (.list (.sym k :: .list (.sym f :: params) :: b :: body)) = [f] := by
  rw [targets.eq_def]
  simp only [h]

/-- The targets of an application are those of its parts. -/
theorem targets_application {operator : Expr} {args : List Expr}
    (h : ∀ k, operator = .sym k → Keyword.ofName? k = none) :
    targets (.list (operator :: args)) = targetsOfAll (operator :: args) := by
  cases operator with
  | sym k =>
    rw [targets.eq_def]
    simp only [h k rfl]
    rfl
  | _ => rfl

/-- A definition has the targets of what it stands for. -/
theorem targets_defineValue (x : String) (e : Expr) :
    (Eval.defineValue x e).targets = x :: e.targets :=
  (List.append_nil _)

theorem targets_defineProcedure (f : String) (params body : List Expr) :
    (Eval.defineProcedure f params body).targets = [f] := rfl

end Expr

/-- From `s` to `s'` nothing was written but the given names in the environment `env` and
    environments that are new. -/
structure Frame (names : List String) (env : EnvId) (s s' : Store) : Prop where
  size : s.tables.size ≤ s'.tables.size
  others : ∀ other, other < s.tables.size → other ≠ env → s'.table other = s.table other
  bound : env < s.tables.size → ∀ x, s.bound env x = true → s'.bound env x = true
  kept : env < s.tables.size → ∀ x, x ∉ names → (s'.table env).get? x = (s.table env).get? x

namespace Frame

variable {names names' : List String} {env env' : EnvId} {s s' s'' : Store}

theorem refl (names : List String) (env : EnvId) (s : Store) : Frame names env s s :=
  ⟨Nat.le_refl _, fun _ _ _ => rfl, fun _ _ h => h, fun _ _ _ => rfl⟩

theorem trans (h : Frame names env s s') (h' : Frame names env s' s'') : Frame names env s s'' where
  size := Nat.le_trans h.size h'.size
  others other hlt hne := by
    rw [h'.others other (Nat.lt_of_lt_of_le hlt h.size) hne, h.others other hlt hne]
  bound henv x hx := h'.bound (Nat.lt_of_lt_of_le henv h.size) x (h.bound henv x hx)
  kept henv x hx := by
    rw [h'.kept (Nat.lt_of_lt_of_le henv h.size) x hx, h.kept henv x hx]

theorem mono (hsub : names ⊆ names') (h : Frame names env s s') : Frame names' env s s' :=
  { h with kept := fun henv x hx => h.kept henv x fun hmem => hx (hsub hmem) }

/-- What goes on in an environment made after `s` is no concern of the environments of `s`. -/
theorem trans_new (h : Frame names env s s') (hnew : s.tables.size ≤ env')
    (h' : Frame names' env' s' s'') : Frame names env s s'' := by
  have hkeep : ∀ other, other < s.tables.size → s''.table other = s'.table other := fun other hlt =>
    h'.others other (Nat.lt_of_lt_of_le hlt h.size) (Nat.ne_of_lt (Nat.lt_of_lt_of_le hlt hnew))
  refine ⟨Nat.le_trans h.size h'.size, fun other hlt hne => ?_, fun henv x hx => ?_,
    fun henv x hx => ?_⟩
  · rw [hkeep other hlt, h.others other hlt hne]
  · rw [Store.bound, hkeep env henv]
    exact h.bound henv x hx
  · rw [hkeep env henv, h.kept henv x hx]

theorem assign {x : String} (hx : x ∈ names) (env : EnvId) (s : Store) (v : Value) :
    Frame names env s (s.bind env x v) where
  size := by simp [Store.bind]
  others other _ hne := by
    rw [Store.table_bind, if_neg fun h => hne h.1]
  bound henv y hy := by
    rw [Store.bound, Store.table_bind, if_pos ⟨rfl, henv⟩, Table.get?_insert]
    split
    · rfl
    · exact hy
  kept henv y hy := by
    rw [Store.table_bind, if_pos ⟨rfl, henv⟩, Table.get?_insert, if_neg]
    rintro rfl
    exact hy hx

theorem allocate (names : List String) (env : EnvId) (s : Store) (t : Table) :
    Frame names env s (s.allocate t).2 where
  size := by simp [Store.allocate]
  others _ hlt _ := Store.table_allocate_of_lt s t hlt
  bound henv x hx := by
    rw [Store.bound, Store.table_allocate_of_lt s t henv]
    exact hx
  kept henv x _ := by rw [Store.table_allocate_of_lt s t henv]

theorem newIdentity (names : List String) (env : EnvId) (s : Store) :
    Frame names env s s.newIdentity.2 :=
  ⟨Nat.le_refl _, fun _ _ _ => rfl, fun _ _ h => h, fun _ _ _ => rfl⟩

end Frame

namespace Eval

/-- How a step in `env` from `s` may end: it has written no more than it may, and if there is a
    tail, that stays in `env` without further targets or enters an environment made since. -/
inductive Confined (names : List String) (env : EnvId) (s : Store) : Outcome Next × Store → Prop
  | value (v : Value) {s' : Store} (h : Frame names env s s') :
      Confined names env s (.ok (.value v), s')
  | error (x : EvalError) {s' : Store} (h : Frame names env s s') :
      Confined names env s (.error x, s')
  | outOfFuel {s' : Store} (h : Frame names env s s') : Confined names env s (.outOfFuel, s')
  | stay {e : Expr} {s' : Store} (h : Frame names env s s') (he : e.targets ⊆ names) :
      Confined names env s (.ok (.tail e env), s')
  | enter (e : Expr) {env' : EnvId} {s' : Store} (h : Frame names env s s')
      (hnew : s.tables.size ≤ env') : Confined names env s (.ok (.tail e env'), s')

variable {sub : Expr → EnvId → Run Value} {names : List String} {env : EnvId}

theorem Confined.of_frame {s s' : Store} {r : Outcome Next × Store} (h : Frame names env s s')
    (hr : Confined names env s' r) : Confined names env s r := by
  cases hr with
  | value v h' => exact .value v (h.trans h')
  | error x h' => exact .error x (h.trans h')
  | outOfFuel h' => exact .outOfFuel (h.trans h')
  | stay h' he => exact .stay (h.trans h') he
  | enter e h' hnew => exact .enter e (h.trans h') (Nat.le_trans h.size hnew)

/-- A call in `env` and what follows it are confined if the call keeps to its frame. -/
theorem confined_ask {e : Expr} {s : Store} {k : Value → Store → Dialogue}
    (hcall : Frame names env s (sub e env s).2)
    (hk : ∀ v s', Confined names env s' ((k v s').run sub)) :
    Confined names env s ((Dialogue.ask ⟨e, env, s⟩ k).run sub) := by
  simp only [Dialogue.run, Call.answer]
  rcases hans : sub e env s with ⟨v | x | _, s'⟩ <;> rw [hans] at hcall
  · exact .of_frame hcall (hk v s')
  · exact .error x hcall
  · exact .outOfFuel hcall

section

variable (hsub : ∀ e env s, Frame e.targets env s (sub e env s).2)

include hsub

theorem sequence_confined : ∀ (x : Expr) (rest : List Expr) (s : Store),
    (∀ y ∈ x :: rest, y.targets ⊆ names) →
    Confined names env s ((Dialogue.sequence env x rest s).run sub)
  | x, [], s, h => .stay (.refl names env s) (h x List.mem_cons_self)
  | x, y :: rest, s, h =>
    confined_ask ((hsub x env s).mono (h x List.mem_cons_self)) fun _ s' =>
      sequence_confined y rest s' fun z hz => h z (List.mem_cons_of_mem x hz)

omit hsub in
theorem call_confined (f : Value) (args : List Value) (s : Store) :
    Confined names env s (call f args s) := by
  cases f with
  | prim p =>
    simp only [call]
    cases p.apply args with
    | ok v => exact .value v (.refl names env s)
    | error e => exact .error _ (.refl names env s)
  | closure _ env' params body => exact .enter body (.allocate names env s _) (Nat.le_refl _)
  | _ => exact .error _ (.refl names env s)

theorem operands_confined (f : Value) : ∀ (rest : List Expr) (values : List Value) (s : Store),
    (∀ y ∈ rest, y.targets ⊆ names) →
    Confined names env s ((Dialogue.operands env f values rest s).run sub)
  | [], values, s, _ => call_confined f values.reverse s
  | x :: rest, values, s, h =>
    confined_ask ((hsub x env s).mono (h x List.mem_cons_self)) fun v s' =>
      operands_confined f rest (v :: values) s' fun z hz => h z (List.mem_cons_of_mem x hz)

theorem application_confined (operator : Expr) (args : List Expr) (s : Store)
    (h : ∀ y ∈ operator :: args, y.targets ⊆ names) :
    Confined names env s ((Dialogue.application env operator args s).run sub) :=
  confined_ask ((hsub operator env s).mono (h operator List.mem_cons_self)) fun f s' =>
    operands_confined hsub f args [] s' fun y hy => h y (List.mem_cons_of_mem operator hy)

theorem special_confined {k : String} {keyword : Keyword} (hk : Keyword.ofName? k = some keyword)
    (parts : List Expr) (s : Store) (h : (Expr.list (.sym k :: parts)).targets ⊆ names) :
    Confined names env s
      ((Dialogue.special env (.list (.sym k :: parts)) keyword parts s).run sub) := by
  unfold Dialogue.special
  split
  · rw [Expr.targets_parts (.inl hk)] at h
    exact sequence_confined hsub _ _ s fun y hy =>
      List.Subset.trans (Expr.targets_subset_of_mem hy) h
  · next x e =>
    rw [Expr.targets_set hk] at h
    obtain ⟨hx, he⟩ := List.cons_subset.mp h
    exact confined_ask ((hsub e env s).mono he) fun v s' => .value .nil (.assign hx env s' v)
  · next test yes =>
    rw [Expr.targets_parts (.inr hk)] at h
    have hparts : ∀ y ∈ [test, yes], y.targets ⊆ names := fun y hy =>
      List.Subset.trans (Expr.targets_subset_of_mem hy) h
    refine confined_ask ((hsub test env s).mono (hparts test (by simp))) fun v s' =>
      .stay (.refl names env s') ?_
    split
    · exact hparts yes (by simp)
    · exact List.nil_subset _
  · next test yes no =>
    rw [Expr.targets_parts (.inr hk)] at h
    have hparts : ∀ y ∈ [test, yes, no], y.targets ⊆ names := fun y hy =>
      List.Subset.trans (Expr.targets_subset_of_mem hy) h
    refine confined_ask ((hsub test env s).mono (hparts test (by simp))) fun v s' =>
      .stay (.refl names env s') ?_
    split
    · exact hparts yes (by simp)
    · exact hparts no (by simp)
  · -- the forms that evaluate no part: a definition goes on with what it stands for
    simp only [Dialogue.run]
    unfold special
    split
    · simp_all
    · simp_all
    · next x e _ _ _ _ =>
      rw [Expr.targets_define hk, ← Expr.targets_defineValue x e] at h
      exact .stay (.refl names env s) h
    · next f params b body _ _ _ _ =>
      rw [Expr.targets_define_procedure hk,
        ← Expr.targets_defineProcedure f params (b :: body)] at h
      exact .stay (.refl names env s) h
    · simp_all
    · simp_all
    · next params body _ _ _ _ =>
      cases paramNames? params with
      | some names' => exact .value _ (.newIdentity names env s)
      | none => exact .error _ (.refl names env s)
    · exact .error _ (.refl names env s)

/-- One step keeps to its frame, and so does what it leaves to be done. -/
theorem step_confined (e : Expr) (env : EnvId) (s : Store) :
    Confined e.targets env s (step sub e env s) := by
  rw [step_eq_run]
  have happ : ∀ operator args, (∀ k, operator = .sym k → Keyword.ofName? k = none) →
      Confined (Expr.list (operator :: args)).targets env s
        ((Dialogue.application env operator args s).run sub) := by
    intro operator args hop
    rw [Expr.targets_application hop]
    exact application_confined hsub operator args s fun y hy => Expr.targets_subset_of_mem hy
  cases e with
  | list items =>
    cases items with
    | nil => exact .value .nil (.refl _ env s)
    | cons operator args =>
      cases operator with
      | sym x =>
        simp only [Dialogue.step]
        cases hk : Keyword.ofName? x with
        | some keyword => exact special_confined hsub hk args s (List.Subset.refl _)
        | none => exact happ (.sym x) args (by rintro k ⟨⟩; exact hk)
      | _ => exact happ _ args (by rintro k ⟨⟩)
  | sym x =>
    simp only [Dialogue.step, Dialogue.run, step, bind, Run.bind, Run.lookup]
    cases s.lookup env x with
    | ok v => exact .value v (.refl _ env s)
    | error e => exact .error e (.refl _ env s)
  | absent => exact .error _ (.refl _ env s)
  | _ => exact .value _ (.refl _ env s)

end

/-! ### Runs -/

/-- Finishing a confined step keeps to its frame if going on with a tail does. -/
theorem follow_frame {tail : Expr → EnvId → Run Value} {s : Store} {r : Outcome Next × Store}
    (hr : Confined names env s r) (htail : ∀ e env s, Frame e.targets env s (tail e env s).2) :
    Frame names env s (follow tail r).2 := by
  cases hr with
  | value v h => exact h
  | error x h => exact h
  | outOfFuel h => exact h
  | stay h he => exact h.trans ((htail _ _ _).mono he)
  | enter e h hnew => exact h.trans_new hnew (htail _ _ _)

theorem nested_frame (limit : Nat) : ∀ (remaining : Nat) (e : Expr) (env : EnvId) (s : Store),
    Frame e.targets env s (nested limit remaining e env s).2
  | 0, e, env, s => .refl e.targets env s
  | remaining + 1, e, env, s => by
    rw [nested_succ]
    exact follow_frame (step_confined (nested_frame limit remaining) e env s)
      (nested_frame limit remaining)

theorem bounce_frame (hsub : ∀ e env s, Frame e.targets env s (sub e env s).2) :
    ∀ (fuel : Nat) (e : Expr) (env : EnvId) (s : Store),
      Frame e.targets env s (bounce sub fuel e env s).2
  | 0, e, env, s => .refl e.targets env s
  | fuel + 1, e, env, s => by
    rw [bounce_succ]
    exact follow_frame (step_confined hsub e env s) (bounce_frame hsub fuel)

theorem trampoline_frame (fuel limit : Nat) :
    ∀ (remaining : Nat) (e : Expr) (env : EnvId) (s : Store),
      Frame e.targets env s (trampoline fuel limit remaining e env s).2
  | 0, e, env, s => .refl e.targets env s
  | remaining + 1, e, env, s => bounce_frame (trampoline_frame fuel limit remaining) fuel e env s

end Eval

theorem Evaluator.eval_frame (ev : Evaluator) (fuel : Nat) (e : Expr) (env : EnvId) (s : Store) :
    Frame e.targets env s (ev.eval fuel e env s).2 := by
  cases hrec : ev.recursive with
  | true =>
    rw [eval_of_recursive hrec]
    exact Eval.nested_frame ev.limit ev.limit e env s
  | false =>
    rw [eval_of_not_recursive hrec]
    exact Eval.trampoline_frame fuel ev.limit ev.limit e env s

/-- Evaluating `e` in `env` leaves every other environment as it was. In `env` itself no name is
    unbound and only targets of `e` change; so a call whose operator and operands have no targets
    changes no environment that there was before it. -/
theorem eval_writes_targets_only (ev : Evaluator) (fuel : Nat) (e : Expr) (env : EnvId) (s : Store)
    (henv : env < s.tables.size) :
    (∀ other, other < s.tables.size → other ≠ env →
      (ev.eval fuel e env s).2.table other = s.table other) ∧
    (∀ x, s.bound env x = true → (ev.eval fuel e env s).2.bound env x = true) ∧
    (∀ x, x ∉ e.targets → ((ev.eval fuel e env s).2.table env).get? x = (s.table env).get? x) ∧
    (∀ operator args, e = .list (operator :: args) →
      (∀ k, operator = .sym k → Keyword.ofName? k = none) →
      (∀ part ∈ operator :: args, part.targets = []) →
      ∀ other, other < s.tables.size → (ev.eval fuel e env s).2.table other = s.table other) := by
  have hframe := ev.eval_frame fuel e env s
  refine ⟨hframe.others, hframe.bound henv, hframe.kept henv, ?_⟩
  rintro operator args rfl hop hparts other hlt
  by_cases hne : other = env
  · subst hne
    refine Table.ext_get? fun x => hframe.kept henv x ?_
    rw [Expr.targets_application hop, Expr.targetsOfAll_eq_nil hparts]
    exact List.not_mem_nil
  · exact hframe.others other hlt hne

/-- The body of the sample call assigns to a name of the environment that the call is made in, and
    leaves that environment alone. -/
theorem sampleCall_writes_nothing : 0 < Eval.sampleStore.tables.size ∧
    (Evaluator.eval ⟨false, 5⟩ 5 Eval.sampleCall 0 Eval.sampleStore).2.table 0 =
      Eval.sampleStore.table 0 := by
  have hsize : 0 < Eval.sampleStore.tables.size := by decide
  refine ⟨hsize, ?_⟩
  refine (eval_writes_targets_only ⟨false, 5⟩ 5 Eval.sampleCall 0 Eval.sampleStore hsize).2.2.2 _ _
    rfl (by rintro k ⟨⟩) ?_ 0 hsize
  simp only [List.forall_mem_cons, List.not_mem_nil, false_implies, implies_true, and_true]
  exact ⟨rfl, rfl⟩

end FlatScheme
