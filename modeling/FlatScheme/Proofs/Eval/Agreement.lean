import FlatScheme.Proofs.Eval.Limits
import Mathlib.Tactic.Choose

/-!
The two evaluators agree.

The nested evaluator spends depth on tails and the trampoline does not, so at every point of a run
the trampoline has at least as much depth left: what the nested evaluator settles, the trampoline
settles alike under the same limit (`nested_extends_trampoline`). The other way round the limit has
to grow. Each evaluation that the trampoline settles makes finitely many calls and takes finitely
many tails, and a limit that suffices for all of them suffices for the whole
(`exists_nested_eq_trampoline`).
-/

namespace FlatScheme

namespace Eval

/-- The trampoline settles what the nested evaluator settles with the same depth. -/
theorem nested_extends_trampoline (limit : Nat) : ∀ {remaining fuel : Nat}, remaining ≤ fuel →
    Extends EvalError.IsDepth (nested limit remaining) (trampoline fuel limit remaining)
  | 0, _, _ => fun _ _ _ h => (h trivial).elim
  | remaining + 1, fuel + 1, hle => by
    have hsub : Extends EvalError.IsDepth (nested limit remaining)
        (trampoline (fuel + 1) limit remaining) :=
      nested_extends_trampoline limit (by omega)
    -- the tail has one level less in the nested evaluator, and the same levels in the loop
    have htail : Extends EvalError.IsDepth (nested limit remaining)
        (bounce (trampoline (fuel + 1) limit remaining) fuel) := by
      intro e env s h
      have heq := nested_extends_trampoline limit (Nat.le_of_succ_le_succ hle) e env s h
      rw [← heq] at h ⊢
      cases remaining with
      | zero => exact (h trivial).elim
      | succ remaining =>
        exact bounce_extends (trampoline_extends limit limit (Nat.le_succ fuel)
          (Nat.le_succ remaining)) (Nat.le_refl _) e env s h
    intro e env s h
    rw [nested_succ] at h
    show bounce (trampoline (fuel + 1) limit remaining) (fuel + 1) e env s = _
    rw [nested_succ, bounce_succ]
    exact round_extends hsub htail h

/-- If each call of a settled step is answered by the nested evaluator with some depth, one depth
    does for the step. -/
theorem exists_nested_step {sub : Expr → EnvId → Run Value} (limit : Nat)
    (hsub : ∀ e env s, (sub e env s).1.Settled → ∃ n, nested limit n e env s = sub e env s)
    {e : Expr} {env : EnvId} {s : Store} (h : (step sub e env s).1.Settled) :
    ∃ n, ∀ m, n ≤ m → step (nested limit m) e env s = step sub e env s := by
  rw [step_eq_run] at h
  have hcalls : ∀ c ∈ (Dialogue.step e env s).asked sub,
      ∃ n, c.answer (nested limit n) = c.answer sub :=
    fun c hc => hsub _ _ _ (clear_of_mem_asked h hc)
  choose! need hneed using hcalls
  refine ⟨largest (((Dialogue.step e env s).asked sub).map need), fun m hm => ?_⟩
  rw [step_eq_run, step_eq_run]
  refine Dialogue.run_congr _ fun c hc => ?_
  have hle : need c ≤ m := Nat.le_trans (le_largest (List.mem_map_of_mem hc)) hm
  have hsettled : (c.answer (nested limit (need c))).1.Settled := by
    rw [hneed c hc]
    exact clear_of_mem_asked h hc
  rw [← hneed c hc]
  exact nested_extends limit limit hle _ _ _ hsettled

theorem exists_nested_eq_bounce {sub : Expr → EnvId → Run Value} (limit : Nat)
    (hsub : ∀ e env s, (sub e env s).1.Settled → ∃ n, nested limit n e env s = sub e env s) :
    ∀ (fuel : Nat) (e : Expr) (env : EnvId) (s : Store), (bounce sub fuel e env s).1.Settled →
      ∃ n, nested limit n e env s = bounce sub fuel e env s
  | 0, _, _, _, h => h.elim
  | fuel + 1, e, env, s, h => by
    rw [bounce_succ] at h
    obtain ⟨n, hn⟩ := exists_nested_step limit hsub (clear_of_follow h)
    rw [bounce_succ]
    rcases hstep : step sub e env s with ⟨(v | ⟨e', env'⟩) | x | _, s'⟩
    · exact ⟨n + 1, by rw [nested_succ, hn n (Nat.le_refl _), hstep]; rfl⟩
    · -- one depth for the calls of this step and for the rest of the loop
      rw [hstep] at h
      obtain ⟨m, hm⟩ := exists_nested_eq_bounce limit hsub fuel e' env' s' h
      refine ⟨max n m + 1, ?_⟩
      rw [nested_succ, hn _ (Nat.le_max_left n m), hstep]
      show nested limit (max n m) e' env' s' = bounce sub fuel e' env' s'
      rw [← hm]
      exact nested_extends limit limit (Nat.le_max_right n m) e' env' s' (by rw [hm]; exact h)
    · exact ⟨n + 1, by rw [nested_succ, hn n (Nat.le_refl _), hstep]; rfl⟩
    · rw [hstep] at h
      exact h.elim

/-- The nested evaluator settles, with some depth, what the trampoline settles. -/
theorem exists_nested_eq_trampoline (fuel limit limit' : Nat) :
    ∀ (remaining : Nat) (e : Expr) (env : EnvId) (s : Store),
      (trampoline fuel limit remaining e env s).1.Settled →
      ∃ n, nested limit' n e env s = trampoline fuel limit remaining e env s
  | 0, _, _, _, h => (h trivial).elim
  | remaining + 1, e, env, s, h =>
    exists_nested_eq_bounce limit' (exists_nested_eq_trampoline fuel limit limit' remaining) fuel e
      env s h

end Eval

open Eval

/-- Apart from depth errors the two evaluators return the same. What the nested one returns, the
    trampoline returns under the same limit; what the trampoline returns, the nested one returns
    under some limit. In both cases the stores left behind are the same. -/
theorem nested_and_trampoline_agree (e : Expr) (env : EnvId) (s s' : Store)
    (r : Except EvalError Value) (hr : ∀ n, r ≠ .error (.depth n)) :
    (∀ maxDepth : Int, Evaluator.Returns ⟨true, maxDepth⟩ e env s r s' →
      Evaluator.Returns ⟨false, maxDepth⟩ e env s r s') ∧
    (∀ maxDepth : Int, Evaluator.Returns ⟨false, maxDepth⟩ e env s r s' →
      ∃ maxDepth' : Int, Evaluator.Returns ⟨true, maxDepth'⟩ e env s r s') := by
  have hsettled : (Outcome.ofExcept r).Settled := Outcome.settled_ofExcept.mpr hr
  constructor
  · rintro maxDepth ⟨enough, h⟩
    have hn := h enough (Nat.le_refl _)
    rw [Evaluator.eval_of_recursive rfl] at hn
    have hs : (nested (Evaluator.limit ⟨true, maxDepth⟩) (Evaluator.limit ⟨true, maxDepth⟩)
        e env s).1.Settled := by
      rw [hn]; exact hsettled
    refine ⟨Evaluator.limit ⟨true, maxDepth⟩, fun fuel hle => ?_⟩
    rw [Evaluator.eval_of_not_recursive rfl, ← hn]
    exact nested_extends_trampoline _ hle e env s hs
  · rintro maxDepth ⟨enough, h⟩
    have ht := h enough (Nat.le_refl _)
    rw [Evaluator.eval_of_not_recursive rfl] at ht
    obtain ⟨n, hn⟩ := exists_nested_eq_trampoline _ _ 0 _ e env s (by rw [ht]; exact hsettled)
    rw [ht] at hn
    refine ⟨(n + 1 : Nat), 0, fun fuel _ => ?_⟩
    rw [Evaluator.eval_of_recursive rfl, Evaluator.limit_ofNat true (Nat.succ_pos n), ← hn]
    exact nested_extends 0 _ (Nat.le_succ n) e env s (by rw [hn]; exact hsettled)

/-- The sample call, which the nested evaluator returns from under a limit of five. -/
theorem nested_and_trampoline_agree_on_sampleCall :
    Evaluator.Returns ⟨true, 5⟩ sampleCall 0 sampleStore (.ok (.num .zero))
      (nested 5 5 sampleCall 0 sampleStore).2 ∧
    Evaluator.Returns ⟨false, 5⟩ sampleCall 0 sampleStore (.ok (.num .zero))
      (nested 5 5 sampleCall 0 sampleStore).2 ∧
    ∃ maxDepth, Evaluator.Returns ⟨true, maxDepth⟩ sampleCall 0 sampleStore (.ok (.num .zero))
      (nested 5 5 sampleCall 0 sampleStore).2 := by
  have hnested : Evaluator.Returns ⟨true, 5⟩ sampleCall 0 sampleStore (.ok (.num .zero))
      (nested 5 5 sampleCall 0 sampleStore).2 := ⟨0, fun _ _ => rfl⟩
  have hagree := nested_and_trampoline_agree sampleCall 0 sampleStore
    (nested 5 5 sampleCall 0 sampleStore).2 (.ok (.num .zero)) (by rintro k ⟨⟩)
  have htrampoline := hagree.1 5 hnested
  exact ⟨hnested, htrampoline, hagree.2 5 htrampoline⟩

end FlatScheme
