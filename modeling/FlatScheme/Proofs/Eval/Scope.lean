import FlatScheme.Proofs.Eval.Frame
import FlatScheme.Proofs.Eval.Renaming

/-!
Lexical scoping as noninterference.

An evaluation can see its own environment, the environments that closures in it have captured, those
captured by closures in these, and so on, besides what the closures in its own quoted data lead to:
the environments that are *reached*. Two stores that have handed out the same numbers and agree on
the tables that are reached cannot be told apart (`eval_agrees`). The others are neither read nor
written, whatever is in them.

The set of environments that are reached grows while closures are made and passed around. It is
enough to start with it and to add all numbers that are still to be handed out: the values that move
about in an evaluation never refer to anything else.
-/

namespace FlatScheme

/-- The environments that the closures in a value have captured. -/
def Value.captured (v : Value) : List EnvId := v.closures.map Prod.snd

/-- The environments that the closures in the quoted data of an expression have captured. -/
def Expr.captured (e : Expr) : List EnvId := e.closures.map Prod.snd

/-- The environments that are reached from some by following the closures in their tables. -/
inductive Store.Reaches (s : Store) (roots : List EnvId) : EnvId → Prop
  | root {a : EnvId} (h : a ∈ roots) : Reaches s roots a
  | follow {a b : EnvId} {x : String} {v : Value} (ha : Reaches s roots a)
      (hv : (s.table a).get? x = some v) (hb : b ∈ v.captured) : Reaches s roots b

/-- Nothing is renamed; the environments other than those that are `seen` may differ. -/
def Renaming.seeing (seen : EnvId → Prop) : Renaming where
  env a b := a = b ∧ seen a
  identity i j := i = j
  env_iff h h' := by rw [h.1, h'.1]
  identity_iff h h' := by rw [h, h']

/-- A value all of whose captured environments are seen. -/
theorem Renaming.seeing_fixes {seen : EnvId → Prop} {closures : List (Nat × EnvId)}
    (h : ∀ a ∈ closures.map Prod.snd, seen a) : (seeing seen).Fixes closures := by
  intro c hc
  exact ⟨rfl, rfl, h c.2 (List.mem_map_of_mem hc)⟩

/-- What two runs leave is the same: the outcome, the numbers handed out, and the tables of the
    given environments. -/
structure SameEnd (known : EnvId → Prop) (r r' : Outcome Value × Store) : Prop where
  outcome : r.1 = r'.1
  size : r.2.tables.size = r'.2.tables.size
  identity : r.2.nextIdentity = r'.2.nextIdentity
  tables : ∀ c, known c → r.2.table c = r'.2.table c

namespace Eval

variable {s s' : Store} {roots : List EnvId} {e : Expr} {a b : EnvId}

/-- The environments that an evaluation on `s` may come to see: those that are reached, and those
    that it makes. -/
def Visible (s : Store) (roots : List EnvId) (c : EnvId) : Prop :=
  s.Reaches roots c ∨ s.tables.size ≤ c

theorem stores_seeing (hsize : s.tables.size = s'.tables.size)
    (hidentity : s.nextIdentity = s'.nextIdentity)
    (hagree : ∀ c, s.Reaches roots c → s.table c = s'.table c) :
    (Stores.mk s s').Renamed (.seeing (Visible s roots)) where
  tables := by
    rintro c _ ⟨rfl, hreach | hnew⟩
    · simp only [← hagree c hreach]
      refine .of_fixes ?_
      intro x v hv
      exact Renaming.seeing_fixes fun d hd => .inl (hreach.follow hv hd)
    · simp only [Store.table_of_le hnew, Store.table_of_le (hsize ▸ hnew)]
      exact .empty
  freshEnv k := ⟨by rw [hsize], .inr (Nat.le_add_right _ k)⟩
  freshIdentity k := by rw [hidentity]; rfl

theorem eq_of_seeing {seen : EnvId → Prop} (c d : EnvId) (h : (Renaming.seeing seen).env c d) :
    c = d := h.1

/-- Where nothing is renamed, corresponding ends are the same. -/
theorem sameEnd_of_ends {seen : EnvId → Prop} {w : Stores} {r r' : Outcome Value × Store}
    (h : (Renaming.seeing seen).simulation.Ends (fun _ v v' => v.Renamed (.seeing seen) v') w r r') :
    SameEnd seen r r' where
  outcome := h.outcome.eq fun hv => hv.eq eq_of_seeing fun _ _ => id
  size := (h.store.freshEnv 0).1
  identity := h.store.freshIdentity 0
  tables c hc := (h.store.tables c c ⟨rfl, hc⟩).eq eq_of_seeing fun _ _ => id

/-- Evaluation depends on what is reached from its roots, and on nothing else. The environment it
    takes place in is a root, unless the expression does not look at it. -/
theorem eval_agrees (ev : Evaluator) (fuel : Nat) (hsize : s.tables.size = s'.tables.size)
    (hidentity : s.nextIdentity = s'.nextIdentity)
    (hagree : ∀ c, s.Reaches roots c → s.table c = s'.table c) (he : e.captured ⊆ roots)
    (hplace : a = b ∧ a ∈ roots ∨ e.Quiet) :
    SameEnd (Visible s roots) (ev.eval fuel e a s) (ev.eval fuel e b s') := by
  have hfixes : (Renaming.seeing (Visible s roots)).Fixes e.closures :=
    Renaming.seeing_fixes fun c hc => .inl (.root (he hc))
  have hexpr : (Renaming.seeing (Visible s roots)).env a b ∨ e.Quiet :=
    hplace.imp (fun h => ⟨h.1, .inl (.root h.2)⟩) id
  exact sameEnd_of_ends ((Renaming.simulation _).eval_carries ev fuel (w := ⟨s, s'⟩)
    (stores_seeing hsize hidentity hagree) ⟨hfixes, hexpr⟩)

/-- The call of a procedure with arguments, all of them given as values. -/
def callOf (f : Value) (args : List Value) : Expr := .list ((f :: args).map .quoted)

end Eval

open Eval

/-- Evaluation sees the environments that it reaches and no others. On two stores that have handed
    out the same numbers and agree on the tables that are reached, it has the same outcome and
    leaves the same table in its own environment and in those that it has made, while
    environments that are not reached keep the tables they have on each store. A call does not even
    depend on where it is made: all it sees is what is reached from the procedure and the
    arguments. -/
theorem eval_sees_reachable_only (ev : Evaluator) (fuel : Nat) (s s' : Store)
    (hsize : s.tables.size = s'.tables.size) (hidentity : s.nextIdentity = s'.nextIdentity) :
    (∀ (e : Expr) (env : EnvId),
      (∀ c, s.Reaches (env :: e.captured) c → s.table c = s'.table c) →
      SameEnd (fun c => c = env ∨ s.tables.size ≤ c) (ev.eval fuel e env s)
        (ev.eval fuel e env s') ∧
      ∀ c, c < s.tables.size → ¬ s.Reaches (env :: e.captured) c →
        (ev.eval fuel e env s).2.table c = s.table c ∧
          (ev.eval fuel e env s').2.table c = s'.table c) ∧
    (∀ (f : Value) (args : List Value) (caller caller' : EnvId),
      (∀ c, s.Reaches (callOf f args).captured c → s.table c = s'.table c) →
      SameEnd (fun c => s.tables.size ≤ c) (ev.eval fuel (callOf f args) caller s)
        (ev.eval fuel (callOf f args) caller' s')) := by
  constructor
  · intro e env hagree
    have hsame := eval_agrees ev fuel hsize hidentity hagree (List.subset_cons_self _ _)
      (.inl ⟨rfl, List.mem_cons_self⟩)
    have henv : s.Reaches (env :: e.captured) env := .root List.mem_cons_self
    refine ⟨{ hsame with tables := ?_ }, ?_⟩
    · rintro c (rfl | hnew)
      · exact hsame.tables c (.inl henv)
      · exact hsame.tables c (.inr hnew)
    · intro c hlt hunreached
      have hne : c ≠ env := by
        rintro rfl
        exact hunreached henv
      exact ⟨(ev.eval_frame fuel e env s).others c hlt hne,
        (ev.eval_frame fuel e env s').others c (hsize ▸ hlt) hne⟩
  · intro f args caller caller' hagree
    have hsame := eval_agrees (a := caller) (b := caller') ev fuel hsize hidentity hagree
      (List.Subset.refl _) (.inr (.data (f :: args)))
    exact { hsame with tables := fun c hnew => hsame.tables c (.inr hnew) }

/-- The sample store with a second environment, in which `z` is `b`. -/
def besideStore (b : Bool) : Store := sampleStore.newEnv.2.bind 1 "z" (.bool b)

/-- The procedure that the sample call calls, made in the first environment. -/
def sampleProcedure : Value :=
  .closure 0 0 ["x"] (bodyOf sampleBody)

theorem besideStore_reaches {b : Bool} {c : EnvId} (h : (besideStore b).Reaches [0] c) : c = 0 := by
  induction h with
  | root h => simpa using h
  | @follow _ _ x v _ hv hc ih =>
    subst ih
    have htable : (besideStore b).table 0 = Table.empty.insert "y" (.bool true) := rfl
    rw [htable, Table.get?_insert] at hv
    split at hv <;> cases hv
    cases hc

/-- The sample call in the first environment, and a call of its procedure made from the second. The
    second environment differs between the two stores. -/
theorem sampleCall_sees_reachable_only :
    (besideStore true).tables.size = (besideStore false).tables.size ∧
    (besideStore true).lookup 1 "z" = .ok (.bool true) ∧
    (besideStore false).lookup 1 "z" = .ok (.bool false) ∧
    SameEnd (fun c => c = 0 ∨ 2 ≤ c) (Evaluator.eval ⟨false, 5⟩ 5 sampleCall 0 (besideStore true))
      (Evaluator.eval ⟨false, 5⟩ 5 sampleCall 0 (besideStore false)) ∧
    SameEnd (fun c => 2 ≤ c)
      (Evaluator.eval ⟨true, 5⟩ 5 (callOf sampleProcedure [.num .zero]) 1 (besideStore true))
      (Evaluator.eval ⟨true, 5⟩ 5 (callOf sampleProcedure [.num .zero]) 1 (besideStore false)) := by
  have hagree : ∀ c, (besideStore true).Reaches [0] c →
      (besideStore true).table c = (besideStore false).table c := by
    intro c hc
    rw [besideStore_reaches hc]
    rfl
  have htail := eval_sees_reachable_only ⟨false, 5⟩ 5 (besideStore true) (besideStore false) rfl rfl
  have hnested := eval_sees_reachable_only ⟨true, 5⟩ 5 (besideStore true) (besideStore false) rfl rfl
  exact ⟨rfl, rfl, rfl, (htail.1 sampleCall 0 hagree).1,
    hnested.2 sampleProcedure [.num .zero] 1 1 hagree⟩

end FlatScheme
