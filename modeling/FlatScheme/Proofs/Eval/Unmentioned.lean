import FlatScheme.Proofs.Eval.Standard

/-!
Bindings that are never looked up.

A name stands in *variable position* where an evaluation may look it up. Keywords at the head of a
form, the targets of `set!` and `define`, parameters and quoted data are no such positions. A name
that has no variable position in an expression, nor in the body of any closure around, can be bound
to anything: the evaluation takes the same course, and the tables it leaves differ in nothing but
the binding of that name (`unmentioned_unobservable`).

The binding itself does move about. It is copied into the environment of every call, and `set!`,
`define` and parameters may overwrite it on both sides. What it takes to compare the two evaluations
is that all values they handle keep silent about the name, which is a standard
(`Standard.silentAbout`).
-/

namespace FlatScheme

/-! ### Variable positions -/

mutual

/-- The names in variable position in the bodies of the closures in a value. -/
def Value.mentions : Value → List String
  | .pair car cdr => car.mentions ++ cdr.mentions
  | .closure _ _ _ body => body.mentions
  | _ => []

/-- The names in variable position in an expression, be they looked up by its own evaluation or by
    that of a procedure that it makes. A form of the wrong shape is refused and has none. Quoted data
    has those of the closures in it. -/
def Expr.mentions : Expr → List String
  | .sym x => [x]
  | .quoted d => d.mentions
  | .list (.sym k :: rest) =>
    match Keyword.ofName? k, rest with
    | some .begin, rest => Expr.mentionsOfAll rest
    | some .cond, [test, yes] => test.mentions ++ yes.mentions
    | some .cond, [test, yes, no] => test.mentions ++ yes.mentions ++ no.mentions
    | some .set, [.sym _, e] => e.mentions
    | some .define, [.sym _, e] => e.mentions
    | some .define, .list (.sym _ :: params) :: body =>
      if (Eval.paramNames? params).isSome then Expr.mentionsOfAll body else []
    | some .lambda, .list params :: body =>
      if (Eval.paramNames? params).isSome then Expr.mentionsOfAll body else []
    | some _, _ => []
    | none, rest => k :: Expr.mentionsOfAll rest
  | .list items => Expr.mentionsOfAll items
  | _ => []

/-- The names in variable position in several expressions. -/
def Expr.mentionsOfAll : List Expr → List String
  | [] => []
  | e :: es => e.mentions ++ Expr.mentionsOfAll es

end

theorem Expr.mem_mentionsOfAll {x : String} {es : List Expr} :
    x ∈ mentionsOfAll es ↔ ∃ e ∈ es, x ∈ e.mentions := by
  induction es with
  | nil => simp [mentionsOfAll]
  | cons e es ih => simp [mentionsOfAll, ih]

theorem Value.mentions_eq_nil : ∀ {v : Value}, v.ClosureFree → v.mentions = []
  | .pair car cdr, h => by
    rw [mentions, mentions_eq_nil h.1, mentions_eq_nil h.2, List.append_nil]
  | .closure _ _ _ _, h => h.elim
  | .nil, _ | .emptyPair, _ | .num _, _ | .str _, _ | .sym _, _ | .bool _, _ | .prim _, _
  | .broken _ _ _, _ => rfl

/-- The head of a special form is not mentioned by it. -/
theorem Expr.mentions_special_subset {k : String} (hk : k ∈ Keyword.spellings) (rest : List Expr) :
    (Expr.list (.sym k :: rest)).mentions ⊆ mentionsOfAll rest := by
  obtain ⟨keyword, hkeyword⟩ := Keyword.exists_ofName?_of_mem hk
  have hbody : ∀ (params body : List Expr) (e : Expr),
      (if (Eval.paramNames? params).isSome then mentionsOfAll body else []) ⊆
        mentionsOfAll (e :: body) := by
    intro params body e
    split
    · exact List.subset_append_right _ _
    · exact List.nil_subset _
  rw [mentions.eq_def]
  simp only [hkeyword]
  split
  · exact List.Subset.refl _
  · simp [mentionsOfAll]
  · simp [mentionsOfAll]
  · simp [mentionsOfAll]
  · simp [mentionsOfAll]
  · exact hbody _ _ _
  · exact hbody _ _ _
  · exact List.nil_subset _
  · next h => cases h

namespace Eval

theorem mentions_part_subset {items : List Expr} {e : Expr} (h : e ∈ parts items) :
    e.mentions ⊆ (Expr.list items).mentions := by
  intro x hx
  have hall : ∀ {es : List Expr}, e ∈ es → x ∈ Expr.mentionsOfAll es := fun he =>
    Expr.mem_mentionsOfAll.mpr ⟨e, he, hx⟩
  cases items with
  | nil => cases h
  | cons operator rest =>
    cases operator with
    | sym k =>
      rw [Expr.mentions.eq_def]
      rw [parts.eq_def] at h
      simp only at h
      split at h
      · next hk => simpa only [hk] using hall h
      · next hk => simpa [hk, Expr.mentionsOfAll] using hall h
      · next hk => simpa [hk, Expr.mentionsOfAll] using hall h
      · next hk => simpa [hk, Expr.mentionsOfAll] using hall h
      · cases h
      · next hk =>
        simp only [hk]
        exact hall h
    | _ => exact hall h

theorem mentions_defineValue (x : String) (e : Expr) :
    (defineValue x e).mentions = (Expr.list [.sym "define", .sym x, e]).mentions :=
  List.append_nil _

theorem mentions_defineProcedure (f : String) (params body : List Expr) :
    (defineProcedure f params body).mentions =
      (Expr.list (.sym "define" :: .list (.sym f :: params) :: body)).mentions := rfl

theorem mentions_lambda (names : List String) (body : List Expr) :
    (Expr.list (.sym "lambda" :: .list (names.map .sym) :: body)).mentions =
      (bodyOf body).mentions := by
  show (if (paramNames? (names.map .sym)).isSome then Expr.mentionsOfAll body else []) = _
  rw [paramNames?_map]
  rfl

end Eval

/-! ### Stores that differ in one name -/

/-- No closure in any table mentions the name. -/
def Store.Silent (x : String) (s : Store) : Prop :=
  ∀ env y v, (s.table env).get? y = some v → x ∉ v.mentions

/-- The stores have handed out the same numbers, and their tables differ at most in what the name is
    bound to, if to anything. -/
structure Store.SameBut (x : String) (s t : Store) : Prop where
  size : s.tables.size = t.tables.size
  identity : s.nextIdentity = t.nextIdentity
  tables : ∀ env y, y ≠ x → (s.table env).get? y = (t.table env).get? y

theorem Table.get?_insertAll_congr {t u : Table} {y : String} (h : t.get? y = u.get? y)
    (names : List String) (values : List Value) :
    (t.insertAll names values).get? y = (u.insertAll names values).get? y := by
  unfold insertAll
  generalize names.zip values = entries
  induction entries generalizing t u with
  | nil => exact h
  | cons p entries ih =>
    refine ih ?_
    rw [get?_insert, get?_insert, h]

namespace Store.SameBut

variable {x : String} {s t : Store}

/-- A store beside itself with the name bound anew. -/
theorem rebind (x : String) (s : Store) (env : EnvId) (v : Value) :
    s.SameBut x (s.bind env x v) where
  size := by simp [Store.bind]
  identity := rfl
  tables env' y hy := by
    rw [table_bind]
    split
    · next h => rw [Table.get?_insert, if_neg hy, h.1]
    · rfl

/-- The same binding on both sides, of whatever name. -/
theorem bind (h : s.SameBut x t) (env : EnvId) (y : String) (v : Value) :
    (s.bind env y v).SameBut x (t.bind env y v) where
  size := by simp [Store.bind, h.size]
  identity := h.identity
  tables env' z hz := by
    rw [table_bind, table_bind, h.size]
    split
    · rw [Table.get?_insert, Table.get?_insert, h.tables env z hz]
    · exact h.tables env' z hz

/-- What is different in an environment is copied along with the rest. -/
theorem extend (h : s.SameBut x t) (env : EnvId) (names : List String) (values : List Value) :
    (s.extend env names values).2.SameBut x (t.extend env names values).2 where
  size := by simp [Store.extend, Store.allocate, h.size]
  identity := h.identity
  tables env' y hy := by
    rw [Store.extend, Store.extend, table_allocate, table_allocate, h.size]
    split
    · exact Table.get?_insertAll_congr (h.tables env y hy) names values
    · exact h.tables env' y hy

theorem newIdentity (h : s.SameBut x t) : s.newIdentity.2.SameBut x t.newIdentity.2 :=
  ⟨h.size, congrArg (· + 1) h.identity, h.tables⟩

end Store.SameBut

/-! ### Evaluations that never look the name up -/

/-- The standard of values and expressions that do not mention the name. -/
def Eval.Standard.silentAbout (x : String) : Standard where
  value _ v := x ∉ v.mentions
  expr _ e _ := x ∉ e.mentions
  value_mono _ h := h
  expr_mono _ h := h
  plain h := by simp [Value.mentions_eq_nil h.closureFree]
  quoted h := h
  empty _ := List.not_mem_nil
  parts h hmem hx := h (mentions_part_subset hmem hx)
  define h := by rwa [mentions_defineValue]
  procedure h := by rwa [mentions_defineProcedure]
  lambda h := by rwa [Value.mentions, ← mentions_lambda]
  enter _ h := h

namespace Store.Silent

open Eval.Standard

variable {x : String} {s : Store}

theorem empty : Store.empty.Silent x := fun _ _ _ h => nomatch h

theorem newEnv (hs : s.Silent x) : s.newEnv.2.Silent x :=
  Met.allocate (D := silentAbout x) hs fun _ _ h => nomatch h

theorem bind (hs : s.Silent x) (env : EnvId) (y : String) {v : Value} (hv : x ∉ v.mentions) :
    (s.bind env y v).Silent x :=
  Met.bind (D := silentAbout x) hs env y hv

theorem extend (hs : s.Silent x) (env : EnvId) (names : List String) {values : List Value}
    (hvalues : ∀ v ∈ values, x ∉ v.mentions) : (s.extend env names values).2.Silent x :=
  Met.extend (D := silentAbout x) hs env names hvalues

end Store.Silent

/-- An evaluation beside one with other bindings of the name. The tables differ; all values and
    expressions that move about are the same. -/
def Eval.Simulation.besideOtherBindings (x : String) : Simulation where
  store w := w.left.SameBut x w.right ∧ w.left.Silent x ∧ w.right.Silent x
  value w v v' := v = v' ∧ (Standard.silentAbout x).value w.left v
  expr w e a b := a = b ∧ (Standard.silentAbout x).expr w.left e a
  value_mono _ h := h
  expr_mono _ h := h
  plain h := ⟨rfl, (Standard.silentAbout x).plain h⟩
  isTrue h := by rw [h.1]
  apply p h := by rw [(Standard.forall₂_same h).1]
  call := by
    rintro w f _ ⟨hsame, hleft, hright⟩ ⟨rfl, hf⟩
    cases f with
    | prim p => exact .prim p
    | broken i name reason => exact .broken i i name reason
    | closure i env names body =>
      refine .closure i i ?_
      intro vs _ hvs
      obtain ⟨rfl, hsilent⟩ := Standard.forall₂_same hvs
      exact ⟨⟨hsame.extend env names vs, hleft.extend env names hsilent,
        hright.extend env names hsilent⟩, hsame.size, hf⟩
    | _ => exact .other nofun nofun
  quoted h := ⟨rfl, h.2⟩
  lookup := by
    rintro w y a _ ⟨hsame, hleft, -⟩ ⟨rfl, hy⟩
    -- a symbol mentions itself, so the name that is looked up is another one
    have hne : y ≠ x := by
      rintro rfl
      exact hy List.mem_cons_self
    rw [← hsame.tables a y hne]
    cases hv : (w.left.table a).get? y with
    | none => exact .none
    | some v => exact .some ⟨rfl, hleft a y v hv⟩
  empty h := ⟨h.1, (Standard.silentAbout x).empty h.2⟩
  parts h hmem := ⟨h.1, (Standard.silentAbout x).parts h.2 hmem⟩
  bind := by
    rintro w y e a _ v _ ⟨hsame, hleft, hright⟩ ⟨rfl, -⟩ ⟨rfl, hv⟩
    exact ⟨hsame.bind a y v, hleft.bind a y hv, hright.bind a y hv⟩
  define h := ⟨h.1, (Standard.silentAbout x).define h.2⟩
  procedure h := ⟨h.1, (Standard.silentAbout x).procedure h.2⟩
  lambda := by
    rintro w names body a _ ⟨hsame, hleft, hright⟩ ⟨rfl, he⟩
    refine ⟨⟨hsame.newIdentity, hleft, hright⟩, ?_, (Standard.silentAbout x).lambda he⟩
    rw [hsame.identity]

/-- Two runs differ in nothing but the bindings of the name that they leave, and still no closure
    mentions it. -/
structure SameEndBut (x : String) (r r' : Outcome Value × Store) : Prop where
  outcome : r.1 = r'.1
  stores : r.2.SameBut x r'.2
  silent : r.2.Silent x ∧ r'.2.Silent x

theorem Evaluator.eval_sameEndBut (ev : Evaluator) (fuel : Nat) {x : String} {e : Expr}
    {s t : Store} (he : x ∉ e.mentions) (hsame : s.SameBut x t) (hs : s.Silent x)
    (ht : t.Silent x) (env : EnvId) :
    SameEndBut x (ev.eval fuel e env s) (ev.eval fuel e env t) := by
  have hends := (Eval.Simulation.besideOtherBindings x).eval_carries ev fuel (w := ⟨s, t⟩)
    (a := env) ⟨hsame, hs, ht⟩ ⟨rfl, he⟩
  exact ⟨hends.outcome.eq And.left, hends.store.1, hends.store.2⟩

open Eval

/-- A binding that nothing mentions is unobservable. Take two stores that differ only in what a name
    is bound to, and let no closure in them mention it. Expressions that do not mention it either
    have the same outcome on both, by every evaluator, and leave stores that again differ only in
    the bindings of the name. A keyword is not mentioned where it heads a form, so it can be bound
    to anything without changing what the form means. -/
theorem unmentioned_unobservable (ev : Evaluator) (fuel : Nat) (x : String) (env : EnvId)
    (s t : Store) (hs : s.Silent x) (ht : t.Silent x) (hsame : s.SameBut x t) :
    (∀ e : Expr, x ∉ e.mentions →
      SameEndBut x (ev.eval fuel e env s) (ev.eval fuel e env t)) ∧
    (x ∈ Keyword.spellings → ∀ (rest : List Expr) (c : EnvId) (v : Value),
      x ∉ Expr.mentionsOfAll rest → x ∉ v.mentions →
      SameEndBut x (ev.eval fuel (.list (.sym x :: rest)) env s)
        (ev.eval fuel (.list (.sym x :: rest)) env (s.bind c x v))) := by
  constructor
  · intro e he
    exact ev.eval_sameEndBut fuel he hsame hs ht env
  · intro hx rest c v hrest hv
    have hform : x ∉ (Expr.list (.sym x :: rest)).mentions := by
      intro hmem
      exact hrest (Expr.mentions_special_subset hx rest hmem)
    exact ev.eval_sameEndBut fuel hform (.rebind x s c v) hs (hs.bind c x hv) env

/-- One environment, with a procedure `pick` that tells whether its argument is true. -/
def pickStore : Store :=
  Store.empty.newEnv.2.newIdentity.2.bind 0 "pick"
    (.closure 0 0 ["b"] (bodyOf [.list [.sym "if", .sym "b", .str "yes", .str "no"]]))

/-- A procedure with a parameter `if`, which it assigns to and does not look at, and a call of it:
    `(begin (define (g if) (set! if "z") (if (pick "") "" "z")) (pick (g "a")))`. -/
def shadowing : Expr :=
  bodyOf [
    .list [.sym "define", .list [.sym "g", .sym "if"],
      .list [.sym "set!", .sym "if", .str "z"],
      .list [.sym "if", .list [.sym "pick", .str ""], .str "", .str "z"]],
    .list [.sym "pick", .list [.sym "g", .str "a"]]]

theorem pickStore_silent : pickStore.Silent "if" := by
  have hbase : Store.empty.newEnv.2.newIdentity.2.Silent "if" := Store.Silent.empty.newEnv
  exact hbase.bind 0 "pick" (by decide)

/-- The keyword `if` is unbound in one store and a string in the other. -/
theorem shadowing_unobservable :
    pickStore.lookup 0 "if" = .error (.unbound "if") ∧
    (pickStore.bind 0 "if" (.str "a")).lookup 0 "if" = .ok (.str "a") ∧
    "if" ∉ shadowing.mentions ∧
    SameEndBut "if" (Evaluator.eval ⟨false, 9⟩ 9 shadowing 0 pickStore)
      (Evaluator.eval ⟨false, 9⟩ 9 shadowing 0 (pickStore.bind 0 "if" (.str "a"))) ∧
    (Evaluator.eval ⟨false, 9⟩ 9 shadowing 0 pickStore).1 = .ok (.str "no") ∧
    SameEndBut "if"
      (Evaluator.eval ⟨true, 9⟩ 9 (.list [.sym "if", .sym "pick", .str "y"]) 0 pickStore)
      (Evaluator.eval ⟨true, 9⟩ 9 (.list [.sym "if", .sym "pick", .str "y"]) 0
        (pickStore.bind 0 "if" .nil)) := by
  have hother : (pickStore.bind 0 "if" (.str "a")).Silent "if" :=
    pickStore_silent.bind 0 "if" (by decide)
  have hsame := Store.SameBut.rebind "if" pickStore 0 (.str "a")
  have hloop := unmentioned_unobservable ⟨false, 9⟩ 9 "if" 0 _ _ pickStore_silent hother hsame
  have hnested := unmentioned_unobservable ⟨true, 9⟩ 9 "if" 0 _ _ pickStore_silent hother hsame
  exact ⟨rfl, rfl, by decide, hloop.1 shadowing (by decide), rfl,
    hnested.2 (by decide) [.sym "pick", .str "y"] 0 .nil (by decide) (by decide)⟩

end FlatScheme
