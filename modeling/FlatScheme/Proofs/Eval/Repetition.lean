import FlatScheme.Proofs.Eval.Frame
import FlatScheme.Proofs.Eval.Renaming

/-!
Procedures keep no state.

A call whose operator and operands have no effects of their own changes no environment that was there
before it. What it does change are environments that it has made, and no later call gets to see
these. So a second call, made on the store that the first one has left, finds the same tables as the
first. It hands out other numbers, but in the same order, which is a renaming: the two calls go the
same way and give the same answer, whatever their procedures assign and define inside.
-/

namespace FlatScheme

/-! ### A store and a later one -/

/-- Numbers below `n` go with themselves. Those from `n` on go with those from `n'` on, in
    order. -/
def Later (n n' : Nat) (i j : Nat) : Prop := i < n ∧ i = j ∨ n ≤ i ∧ i + n' = j + n

theorem Later.same {n n' i : Nat} (h : i < n) : Later n n' i i := .inl ⟨h, rfl⟩

theorem Later.fresh (n n' k : Nat) : Later n n' (n + k) (n' + k) := by
  unfold Later
  omega

theorem Later.iff {n n' i i' j j' : Nat} (hle : n ≤ n') (h : Later n n' i j)
    (h' : Later n n' i' j') : i = i' ↔ j = j' := by
  unfold Later at h h'
  omega

/-- What a store has handed out keeps its number. What it is about to hand out goes with what a
    later store is about to hand out. -/
def Renaming.later {s s' : Store} (h : s.Grows s') : Renaming where
  env := Later s.tables.size s'.tables.size
  identity := Later s.nextIdentity s'.nextIdentity
  env_iff := Later.iff h.size
  identity_iff := Later.iff h.identity

theorem Renaming.later_fixes {s s' : Store} (h : s.Grows s') {closures : List (Nat × EnvId)}
    (hclosures : ∀ c ∈ closures, s.Allotted c) : (later h).Fixes closures := by
  intro c hc
  exact ⟨.same (hclosures c hc).identity, .same (hclosures c hc).env⟩

/-- A closed store is a renaming of every later one in which its tables are what they were. -/
theorem stores_later {s s' : Store} (hs : s.Closed) (hgrow : s.Grows s')
    (hkept : ∀ c, c < s.tables.size → s'.table c = s.table c) :
    (Stores.mk s s').Renamed (.later hgrow) where
  tables := by
    rintro a b (⟨hlt, rfl⟩ | ⟨hle, heq⟩)
    · simp only [hkept a hlt]
      refine .of_fixes ?_
      intro x v hv
      exact Renaming.later_fixes hgrow (hs a x v hv)
    · have hle' : s'.tables.size ≤ b :=
        Nat.le_of_add_le_add_right (Nat.le_trans (Nat.add_comm _ _ ▸ Nat.add_le_add_right hle _)
          (Nat.le_of_eq heq))
      simp only [Store.table_of_le hle, Store.table_of_le hle']
      exact .empty
  freshEnv k := Later.fresh _ _ k
  freshIdentity k := Later.fresh _ _ k

/-- An evaluation without targets leaves all tables as they were. -/
theorem Frame.table_eq {env : EnvId} {s s' : Store} (h : Frame [] env s s') {c : EnvId}
    (hc : c < s.tables.size) : s'.table c = s.table c := by
  by_cases hne : c = env
  · subst hne
    refine Table.ext_get? ?_
    intro x
    exact h.kept hc x List.not_mem_nil
  · exact h.others c hc hne

/-! ### Answers -/

/-- Evaluations end with the same message, or with values of the same type and text. -/
def SameAnswer : Except EvalError Value → Except EvalError Value → Prop
  | .ok v, .ok v' => v.kind = v'.kind ∧ v.text = v'.text
  | .error x, .error x' => x.message = x'.message
  | _, _ => False

theorem SameAnswer.refl (x : EvalError) : SameAnswer (.error x) (.error x) := by
  simp only [SameAnswer]

theorem SameAnswer.notProcedure {v v' : Value} (h : v.text = v'.text) :
    SameAnswer (.error (.notProcedure v)) (.error (.notProcedure v')) :=
  congrArg ("not a procedure: " ++ ·) h

/-- Outcomes that are the same up to renaming: both lack fuel, or they are the same answer. -/
theorem Outcome.Alike.cases {ρ : Renaming} {o o' : Outcome Value}
    (h : Outcome.Alike (Value.Renamed ρ) (Value.Renamed ρ) o o') :
    (o = .outOfFuel ∧ o' = .outOfFuel) ∨
    ∃ r r', o = .ofExcept r ∧ o' = .ofExcept r' ∧ SameAnswer r r' := by
  cases h with
  | @ok v v' hv => exact .inr ⟨.ok v, .ok v', rfl, rfl, hv.kind_eq, hv.text_eq⟩
  | error x => exact .inr ⟨.error x, .error x, rfl, rfl, .refl x⟩
  | notProcedure hv => exact .inr ⟨.error _, .error _, rfl, rfl, .notProcedure hv.text_eq⟩
  | outOfFuel => exact .inl ⟨rfl, rfl⟩

/-- Symbols, numbers, strings and quoted data. -/
def Expr.Simple : Expr → Prop
  | .sym _ | .num _ | .str _ | .quoted _ => True
  | .absent | .list _ => False

theorem Expr.Simple.targets_eq {e : Expr} (h : e.Simple) : e.targets = [] := by
  cases e with
  | list | absent => exact h.elim
  | _ => rfl

namespace Eval

/-- Two evaluations in succession of an expression without targets, with any fuel each. -/
theorem eval_again (ev : Evaluator) (fuel fuel' : Nat) {s : Store} {e : Expr} {env : EnvId}
    (hs : s.Closed) (henv : env < s.tables.size) (he : ∀ c ∈ e.closures, s.Allotted c)
    (htargets : e.targets = []) :
    let r := ev.eval fuel' e env s
    let r' := ev.eval fuel' e env (ev.eval fuel e env s).2
    (r.1 = .outOfFuel ∧ r'.1 = .outOfFuel) ∨
      ∃ a a', r.1 = .ofExcept a ∧ r'.1 = .ofExcept a' ∧ SameAnswer a a' := by
  have hgrow : s.Grows (ev.eval fuel e env s).2 := (hs.eval ev fuel henv he).1
  have hframe : Frame [] env s (ev.eval fuel e env s).2 := htargets ▸ ev.eval_frame fuel e env s
  have hstores := stores_later hs hgrow fun c hc => hframe.table_eq hc
  have hends := (Renaming.later hgrow).simulation.eval_carries ev fuel' hstores
    (⟨Renaming.later_fixes hgrow he, .inl (.same henv)⟩)
  exact hends.outcome.cases

end Eval

open Eval

/-- Procedures keep no state between calls. An application whose operator and operands are symbols,
    numbers, strings or quoted data, evaluated twice in succession on a closed store, gives the
    same answer both times: the same error message, or values of the same type and text. Or else it
    does not end, neither at first nor on whatever store it has got to. -/
theorem repeated_application_same_answer (ev : Evaluator) (s : Store) (env : EnvId)
    (operator : Expr) (args : List Expr) (hs : s.Closed) (henv : env < s.tables.size)
    (hop : ∀ k ∈ Keyword.spellings, operator ≠ .sym k)
    (hsimple : ∀ e ∈ operator :: args, e.Simple)
    (hclosures : ∀ c ∈ (Expr.list (operator :: args)).closures, s.Allotted c) :
    (∃ r s' r' s'', ev.Returns (.list (operator :: args)) env s r s' ∧
      ev.Returns (.list (operator :: args)) env s' r' s'' ∧ SameAnswer r r') ∨
    (∀ fuel fuel', (ev.eval fuel (.list (operator :: args)) env s).1 = .outOfFuel ∧
      (ev.eval fuel' (.list (operator :: args)) env
        (ev.eval fuel (.list (operator :: args)) env s).2).1 = .outOfFuel) := by
  have htargets : (Expr.list (operator :: args)).targets = [] := by
    rw [Expr.targets_application fun k hk => Keyword.ofName?_eq_none_iff.mpr fun h => hop k h hk]
    exact Expr.targetsOfAll_eq_nil fun e he => (hsimple e he).targets_eq
  have hagain := fun fuel fuel' => eval_again ev fuel fuel' hs henv hclosures htargets
  by_cases hend : ∃ fuel, (ev.eval fuel (.list (operator :: args)) env s).1 ≠ .outOfFuel
  · obtain ⟨fuel, hfuel⟩ := hend
    rcases hagain fuel fuel with ⟨hlack, -⟩ | ⟨r, r', hr, hr', hsame⟩
    · exact absurd hlack hfuel
    · exact .inl ⟨r, _, r', _, Evaluator.returns_of_eval (Prod.ext hr rfl),
        Evaluator.returns_of_eval (Prod.ext hr' rfl), hsame⟩
  · refine .inr ?_
    intro fuel fuel'
    have hlack : ∀ n, (ev.eval n (.list (operator :: args)) env s).1 = .outOfFuel := by
      intro n
      by_contra h
      exact hend ⟨n, h⟩
    refine ⟨hlack fuel, ?_⟩
    rcases hagain fuel fuel' with ⟨-, hlack'⟩ | ⟨r, r', hr, -, -⟩
    · exact hlack'
    · have hended := Outcome.ended_ofExcept r
      rw [← hr, hlack fuel'] at hended
      exact hended.elim

/-- A global environment in which `n` is zero and `tick` adds one to `n` and returns it. -/
def tickStore : Store :=
  (((Store.empty.newGlobal.2.bind 0 "n" (.num .zero)).newIdentity.2).bind 0 "tick"
    (.closure 0 0 [] (bodyOf [.list [.sym "set!", .sym "n", .list [.sym "+", .sym "n", .num .one]],
      .sym "n"])))

theorem tickStore_closed : tickStore.Closed := by
  have hnumber := (Store.Closed.empty.newGlobal.bind 0 "n" (v := .num .zero) nofun).newIdentity
  refine hnumber.bind 0 "tick" ?_
  intro c hc
  obtain rfl := List.mem_singleton.mp hc
  exact ⟨by decide, by decide⟩

/-- A counter that does not count: `(tick)` returns one, every time. -/
theorem tick_same_answer : tickStore.Closed ∧ 0 < tickStore.tables.size ∧
    (Evaluator.eval ⟨true, 9⟩ 0 (.list [.sym "tick"]) 0 tickStore).1 = .ok (.num .one) ∧
    ∃ r s' r' s'', Evaluator.Returns ⟨true, 9⟩ (.list [.sym "tick"]) 0 tickStore r s' ∧
      Evaluator.Returns ⟨true, 9⟩ (.list [.sym "tick"]) 0 s' r' s'' ∧ SameAnswer r r' := by
  have hsize : 0 < tickStore.tables.size := by decide
  have hfirst : (Evaluator.eval ⟨true, 9⟩ 0 (.list [.sym "tick"]) 0 tickStore).1 =
      .ok (.num .one) := rfl
  refine ⟨tickStore_closed, hsize, hfirst, ?_⟩
  refine (repeated_application_same_answer ⟨true, 9⟩ tickStore 0 (.sym "tick") [] tickStore_closed
    hsize (by simp [Keyword.spellings]) (by simp [Expr.Simple]) nofun).resolve_right ?_
  intro hlack
  have hnone := (hlack 0 0).1
  rw [hfirst] at hnone
  cases hnone

end FlatScheme
