import FlatScheme.Proofs.Eval.Limits
import Mathlib.Tactic.Choose

/-!
How much depth an evaluation takes.

Every evaluation that some limit settles has a threshold: with at least that many levels it ends as
it does, with fewer it ends in a depth error. The threshold is one more than the largest of the
thresholds of the evaluations inside it. What counts as inside is the whole difference between the
two evaluators: for the nested one it is the calls of its first step and the tail of that step, for
the trampoline the calls of all steps along the loop over tails. The length of the loop does not
enter.

A step is short of depth as soon as one of its calls is (`run_short`), and a round of a step and its
tail takes what the most demanding of its calls and the tail takes (`round_takes`); the rest is by
induction on the depth left and, for the trampoline, along the loop.
-/

namespace FlatScheme

namespace Eval

/-- Levels left are counted down from a limit. -/
abbrev Family := (limit remaining : Nat) → Expr → EnvId → Run Value

/-- A call takes exactly `n` levels: with `n` or more left it is answered by `r`, and with fewer it
    ends in a depth error. -/
structure Takes (F : Family) (c : Call) (r : Outcome Value × Store) (n : Nat) : Prop where
  enough : ∀ limit remaining, n ≤ remaining → c.answer (F limit remaining) = r
  short : ∀ limit remaining, remaining < n →
    (c.answer (F limit remaining)).1 = .error (.depth limit)

variable {F : Family} {sub : Expr → EnvId → Run Value} {need : Call → Nat}

/-! ### One step -/

/-- The most levels that any of some calls takes. -/
def demand (need : Call → Nat) (calls : List Call) : Nat := largest (calls.map need)

theorem demand_append (need : Call → Nat) (cs cs' : List Call) :
    demand need (cs ++ cs') = max (demand need cs) (demand need cs') := by
  rw [demand, List.map_append, largest_append]; rfl

theorem run_enough {d : Dialogue} (hneed : ∀ c ∈ d.asked sub, Takes F c (c.answer sub) (need c))
    (limit : Nat) {remaining : Nat} (h : demand need (d.asked sub) ≤ remaining) :
    d.run (F limit remaining) = d.run sub := by
  refine d.run_congr fun c hc => (hneed c hc).enough limit remaining ?_
  exact Nat.le_trans (le_largest (List.mem_map_of_mem hc)) h

theorem run_short : ∀ {d : Dialogue}, (∀ c ∈ d.asked sub, Takes F c (c.answer sub) (need c)) →
    ∀ (limit : Nat) {remaining : Nat}, remaining < demand need (d.asked sub) →
      (d.run (F limit remaining)).1 = .error (.depth limit)
  | .done _, _, _, _, h => by simp [Dialogue.asked, demand, largest] at h
  | .ask c k, hneed, limit, remaining, h => by
    have hc := hneed c (by simp [Dialogue.asked])
    rcases Nat.lt_or_ge remaining (need c) with hlt | hge
    · -- the first call is short already
      obtain ⟨s, hans⟩ : ∃ s, c.answer (F limit remaining) = (.error (.depth limit), s) :=
        ⟨_, Prod.ext (hc.short limit remaining hlt) rfl⟩
      simp only [Dialogue.run, hans]
    · have hans := hc.enough limit remaining hge
      simp only [Dialogue.run, hans]
      rcases ha : c.answer sub with ⟨v | e | _, s⟩ <;>
        simp only [Dialogue.asked, ha, demand, List.map_cons, largest_cons] at h hneed
      · refine run_short (fun c' hc' => hneed c' (List.mem_cons_of_mem c hc')) limit ?_
        simp only [demand]
        omega
      · simp only [List.map_nil, largest, List.foldr_nil] at h
        omega
      · simp only [List.map_nil, largest, List.foldr_nil] at h
        omega

theorem follow_short {tail : Expr → EnvId → Run Value} {r : Outcome Next × Store} {x : EvalError}
    (h : r.1 = .error x) : (follow tail r).1 = .error x := by
  obtain ⟨o, s⟩ := r
  cases h
  rfl

/-- The tail that a step leaves, if it leaves one. -/
def tails : Outcome Next × Store → List Call
  | (.ok (.tail e env), s) => [⟨e, env, s⟩]
  | _ => []

theorem tails_eq_of_mem {r : Outcome Next × Store} {c : Call} (hc : c ∈ tails r) :
    tails r = [c] := by
  unfold tails at hc ⊢
  split at hc
  · rw [List.mem_singleton.mp hc]
  · cases hc

theorem follow_of_mem_tails {tail : Expr → EnvId → Run Value} {r : Outcome Next × Store} {c : Call}
    (hc : c ∈ tails r) : follow tail r = c.answer tail := by
  unfold tails at hc
  split at hc
  · rw [List.mem_singleton.mp hc]; rfl
  · cases hc

/-- Finishing a step takes what its tail takes, and nothing if there is no tail. -/
theorem follow_takes {G : Family} {tail : Expr → EnvId → Run Value} {r : Outcome Next × Store}
    {m : Nat} (htail : ∀ c ∈ tails r, Takes G c (c.answer tail) m) (hnone : tails r = [] → m = 0)
    (limit remaining : Nat) :
    (m ≤ remaining → follow (G limit remaining) r = follow tail r) ∧
    (remaining < m → (follow (G limit remaining) r).1 = .error (.depth limit)) := by
  rcases r with ⟨(v | ⟨e, env⟩) | x | _, s⟩
  · exact ⟨fun _ => rfl, fun h => by rw [hnone rfl] at h; omega⟩
  · have ht := htail ⟨e, env, s⟩ (List.mem_singleton.mpr rfl)
    exact ⟨ht.enough limit remaining, ht.short limit remaining⟩
  · exact ⟨fun _ => rfl, fun h => by rw [hnone rfl] at h; omega⟩
  · exact ⟨fun _ => rfl, fun h => by rw [hnone rfl] at h; omega⟩

/-- A round takes what the most demanding of its calls and its tail takes. -/
theorem round_takes {G : Family} {tail : Expr → EnvId → Run Value} {e : Expr} {env : EnvId}
    {s : Store} {m : Nat}
    (hcalls : ∀ c ∈ (Dialogue.step e env s).asked sub, Takes F c (c.answer sub) (need c))
    (htail : ∀ c ∈ tails (step sub e env s), Takes G c (c.answer tail) m)
    (hnone : tails (step sub e env s) = [] → m = 0) :
    Takes (fun limit remaining e env s =>
        follow (G limit remaining) (step (F limit remaining) e env s))
      ⟨e, env, s⟩ (follow tail (step sub e env s))
      (max (demand need ((Dialogue.step e env s).asked sub)) m) := by
  have hfollow := follow_takes htail hnone
  refine ⟨fun limit remaining h => ?_, fun limit remaining h => ?_⟩
  · have hrun := run_enough hcalls limit (Nat.le_trans (Nat.le_max_left _ m) h)
    rw [← step_eq_run, ← step_eq_run] at hrun
    show follow (G limit remaining) (step (F limit remaining) e env s) = _
    rw [hrun]
    exact (hfollow limit remaining).1 (Nat.le_trans (Nat.le_max_right _ m) h)
  · show (follow (G limit remaining) (step (F limit remaining) e env s)).1 = _
    rcases Nat.lt_or_ge remaining (demand need ((Dialogue.step e env s).asked sub)) with hlt | hge
    · have hrun := run_short hcalls limit hlt
      rw [← step_eq_run] at hrun
      exact follow_short hrun
    · have hrun := run_enough hcalls limit hge
      rw [← step_eq_run, ← step_eq_run] at hrun
      rw [hrun]
      exact (hfollow limit remaining).2 (by omega)

/-- An evaluator spends one level before it starts. -/
theorem Takes.succ {G : Family} {c : Call} {r : Outcome Value × Store} {n : Nat}
    (hzero : ∀ limit, (c.answer (F limit 0)).1 = .error (.depth limit))
    (hsucc : ∀ limit remaining, c.answer (F limit (remaining + 1)) = c.answer (G limit remaining))
    (h : Takes G c r n) : Takes F c r (n + 1) := by
  refine ⟨fun limit remaining hle => ?_, fun limit remaining hlt => ?_⟩
  · obtain ⟨levels, rfl⟩ : ∃ levels, remaining = levels + 1 := ⟨remaining - 1, by omega⟩
    rw [hsucc]
    exact h.enough limit levels (by omega)
  · rcases remaining with _ | levels
    · exact hzero limit
    · rw [hsucc]
      exact h.short limit levels (by omega)

/-! ### The nested evaluator -/

/-- The evaluations inside a nested one: the calls of its first step, and then its tail. -/
def nestedCalls (sub : Expr → EnvId → Run Value) (e : Expr) (env : EnvId) (s : Store) : List Call :=
  (Dialogue.step e env s).asked sub ++ tails (step sub e env s)

theorem nested_takes {limit remaining : Nat} {e : Expr} {env : EnvId} {s : Store}
    (hneed : ∀ c ∈ nestedCalls (nested limit remaining) e env s,
      Takes nested c (c.answer (nested limit remaining)) (need c)) :
    Takes nested ⟨e, env, s⟩ (nested limit (remaining + 1) e env s)
      (demand need (nestedCalls (nested limit remaining) e env s) + 1) := by
  have htail : ∀ c ∈ tails (step (nested limit remaining) e env s),
      Takes nested c (c.answer (nested limit remaining))
        (demand need (tails (step (nested limit remaining) e env s))) := by
    intro c hc
    have hdemand : demand need (tails (step (nested limit remaining) e env s)) = need c := by
      rw [tails_eq_of_mem hc]
      exact Nat.max_zero _
    rw [hdemand]
    exact hneed c (List.mem_append_right _ hc)
  have hround := round_takes (fun c hc => hneed c (List.mem_append_left _ hc)) htail
    fun hnone => by rw [hnone]; rfl
  rw [← demand_append, ← nestedCalls] at hround
  rw [nested_succ]
  refine Takes.succ (fun _ => rfl) (fun limit remaining => ?_) hround
  exact nested_succ limit remaining e env s

theorem settled_of_mem_nestedCalls {limit remaining : Nat} {e : Expr} {env : EnvId} {s : Store}
    (h : (nested limit (remaining + 1) e env s).1.Settled) {c : Call}
    (hc : c ∈ nestedCalls (nested limit remaining) e env s) :
    (c.answer (nested limit remaining)).1.Settled := by
  rw [nested_succ] at h
  rcases List.mem_append.mp hc with hc | hc
  · have hstep := clear_of_follow h
    rw [step_eq_run] at hstep
    exact clear_of_mem_asked hstep hc
  · rwa [follow_of_mem_tails hc] at h

/-- What the nested evaluator settles takes some number of levels. -/
theorem exists_nested_takes (limit : Nat) : ∀ (remaining : Nat) (c : Call),
    (c.answer (nested limit remaining)).1.Settled →
    ∃ n, 1 ≤ n ∧ Takes nested c (c.answer (nested limit remaining)) n
  | 0, _, h => (h trivial).elim
  | remaining + 1, c, h => by
    have hcalls := fun c' hc' =>
      exists_nested_takes limit remaining c' (settled_of_mem_nestedCalls h hc')
    choose! need hneed using hcalls
    exact ⟨_, Nat.succ_pos _, nested_takes fun c' hc' => (hneed c' hc').2⟩

/-! ### The trampoline -/

/-- The evaluations inside a loop over tails: the calls of all its steps. -/
def loopCalls (sub : Expr → EnvId → Run Value) : (fuel : Nat) → Expr → EnvId → Store → List Call
  | 0, _, _, _ => []
  | fuel + 1, e, env, s =>
    (Dialogue.step e env s).asked sub ++
      (tails (step sub e env s)).flatMap fun c => loopCalls sub fuel c.expr c.env c.store

theorem flatMap_tails_of_mem {r : Outcome Next × Store} {c : Call} (hc : c ∈ tails r)
    (f : Call → List Call) : (tails r).flatMap f = f c := by
  rw [tails_eq_of_mem hc, List.flatMap_singleton]

theorem bounce_takes : ∀ {fuel : Nat} {e : Expr} {env : EnvId} {s : Store},
    (bounce sub fuel e env s).1.Settled →
    (∀ c ∈ loopCalls sub fuel e env s, Takes F c (c.answer sub) (need c)) →
    ∀ {fuel' : Nat}, fuel ≤ fuel' →
      Takes (fun limit remaining => bounce (F limit remaining) fuel') ⟨e, env, s⟩
        (bounce sub fuel e env s) (demand need (loopCalls sub fuel e env s))
  | 0, _, _, _, h, _, _, _ => h.elim
  | fuel + 1, e, env, s, h, hneed, fuel' + 1, hle => by
    rw [bounce_succ] at h ⊢
    rw [loopCalls, demand_append]
    have htail : ∀ c ∈ tails (step sub e env s),
        Takes (fun limit remaining => bounce (F limit remaining) fuel') c
          (c.answer (bounce sub fuel))
          (demand need ((tails (step sub e env s)).flatMap fun c =>
            loopCalls sub fuel c.expr c.env c.store)) := by
      intro c hc
      rw [flatMap_tails_of_mem hc]
      rw [follow_of_mem_tails hc] at h
      refine bounce_takes h (fun c' hc' => hneed c' ?_) (Nat.le_of_succ_le_succ hle)
      rw [loopCalls, flatMap_tails_of_mem hc]
      exact List.mem_append_right _ hc'
    have hround := round_takes (fun c hc => hneed c (List.mem_append_left _ hc)) htail
      fun hnone => by rw [hnone]; rfl
    refine ⟨fun limit remaining h => ?_, fun limit remaining h => ?_⟩
    · exact (bounce_succ (F limit remaining) fuel' e env s).trans (hround.enough limit remaining h)
    · exact (congrArg Prod.fst (bounce_succ (F limit remaining) fuel' e env s)).trans
        (hround.short limit remaining h)

theorem settled_of_mem_loopCalls : ∀ {fuel : Nat} {e : Expr} {env : EnvId} {s : Store},
    (bounce sub fuel e env s).1.Settled → ∀ {c : Call}, c ∈ loopCalls sub fuel e env s →
      (c.answer sub).1.Settled
  | 0, _, _, _, h, _, _ => h.elim
  | fuel + 1, e, env, s, h, c, hc => by
    rw [bounce_succ] at h
    rcases List.mem_append.mp hc with hc | hc
    · have hstep := clear_of_follow h
      rw [step_eq_run] at hstep
      exact clear_of_mem_asked hstep hc
    · obtain ⟨t, ht, hc⟩ := List.mem_flatMap.mp hc
      rw [follow_of_mem_tails ht] at h
      exact settled_of_mem_loopCalls h hc

/-- A call of the trampoline takes `n` levels, with this fuel or more. -/
def TakesFrom (fuel : Nat) (c : Call) (r : Outcome Value × Store) (n : Nat) : Prop :=
  ∀ fuel', fuel ≤ fuel' → Takes (trampoline fuel') c r n

theorem trampoline_takes {fuel limit remaining : Nat} {e : Expr} {env : EnvId} {s : Store}
    (h : (trampoline fuel limit (remaining + 1) e env s).1.Settled)
    (hneed : ∀ c ∈ loopCalls (trampoline fuel limit remaining) fuel e env s,
      TakesFrom fuel c (c.answer (trampoline fuel limit remaining)) (need c)) :
    TakesFrom fuel ⟨e, env, s⟩ (trampoline fuel limit (remaining + 1) e env s)
      (demand need (loopCalls (trampoline fuel limit remaining) fuel e env s) + 1) := by
  intro fuel' hle
  exact (bounce_takes h (fun c hc => hneed c hc fuel' hle) hle).succ (fun _ => rfl) fun _ _ => rfl

/-- What the trampoline settles takes some number of levels. -/
theorem exists_trampoline_takes (fuel limit : Nat) : ∀ (remaining : Nat) (c : Call),
    (c.answer (trampoline fuel limit remaining)).1.Settled →
    ∃ n, 1 ≤ n ∧ TakesFrom fuel c (c.answer (trampoline fuel limit remaining)) n
  | 0, _, h => (h trivial).elim
  | remaining + 1, c, h => by
    have hcalls := fun c' hc' =>
      exists_trampoline_takes fuel limit remaining c' (settled_of_mem_loopCalls h hc')
    choose! need hneed using hcalls
    exact ⟨_, Nat.succ_pos _, trampoline_takes h fun c' hc' => (hneed c' hc').2⟩

end Eval

open Eval

/-- `n` is the least limit under which a call returns `r` and leaves `s'`: so it does under
    every limit from `n` on, and under every smaller one it returns a depth error that carries
    the limit. -/
structure Threshold (recursive : Bool) (c : Call) (r : Except EvalError Value) (s' : Store)
    (n : Nat) : Prop where
  clear : ∀ k, r ≠ .error (.depth k)
  pos : 1 ≤ n
  enough : ∀ ev : Evaluator, ev.recursive = recursive → n ≤ ev.limit →
    ev.Returns c.expr c.env c.store r s'
  short : ∀ ev : Evaluator, ev.recursive = recursive → ev.limit < n →
    ∃ s'', ev.Returns c.expr c.env c.store (.error (.depth ev.limit)) s''

/-- The evaluations inside an evaluation: for the nested evaluator the calls of the first step and
    the tail of it, for the trampoline the calls of all steps along the loop over tails. -/
def Evaluator.inner (ev : Evaluator) (fuel : Nat) (e : Expr) (env : EnvId) (s : Store) :
    List Call :=
  if ev.recursive then nestedCalls (nested ev.limit (ev.limit - 1)) e env s
  else loopCalls (trampoline fuel ev.limit (ev.limit - 1)) fuel e env s

theorem threshold_of_nested_takes {c : Call} {r : Except EvalError Value} {s' : Store} {n : Nat}
    (hr : ∀ k, r ≠ .error (.depth k)) (hpos : 1 ≤ n) (h : Takes nested c (.ofExcept r, s') n) :
    Threshold true c r s' n := by
  refine ⟨hr, hpos, fun ev hrec hle => ⟨0, fun fuel _ => ?_⟩, fun ev hrec hlt => ?_⟩
  · rw [Evaluator.eval_of_recursive hrec]
    exact h.enough ev.limit ev.limit hle
  · refine ⟨(c.answer (nested ev.limit ev.limit)).2, 0, fun fuel _ => ?_⟩
    rw [Evaluator.eval_of_recursive hrec]
    exact Prod.ext (h.short ev.limit ev.limit hlt) rfl

theorem threshold_of_trampoline_takes {fuel : Nat} {c : Call} {r : Except EvalError Value}
    {s' : Store} {n : Nat} (hr : ∀ k, r ≠ .error (.depth k)) (hpos : 1 ≤ n)
    (h : TakesFrom fuel c (.ofExcept r, s') n) : Threshold false c r s' n := by
  refine ⟨hr, hpos, fun ev hrec hle => ⟨fuel, fun fuel' hfuel => ?_⟩, fun ev hrec hlt => ?_⟩
  · rw [Evaluator.eval_of_not_recursive hrec]
    exact (h fuel' hfuel).enough ev.limit ev.limit hle
  · have hend : ∃ s'', ev.eval fuel c.expr c.env c.store =
        (.ofExcept (.error (.depth ev.limit)), s'') := by
      rw [Evaluator.eval_of_not_recursive hrec]
      exact ⟨_, Prod.ext ((h fuel (Nat.le_refl _)).short ev.limit ev.limit hlt) rfl⟩
    obtain ⟨s'', hend⟩ := hend
    exact ⟨s'', Evaluator.returns_of_eval hend⟩

theorem exists_threshold_nested {limit remaining : Nat} {c : Call}
    (h : (c.answer (nested limit remaining)).1.Settled) :
    ∃ n, (∃ r s', Threshold true c r s' n) ∧
      Takes nested c (c.answer (nested limit remaining)) n := by
  obtain ⟨n, hpos, hn⟩ := exists_nested_takes limit remaining c h
  obtain ⟨r, s', hans⟩ := Outcome.exists_eq_ofExcept h.ended
  rw [hans] at h hn ⊢
  exact ⟨n, ⟨r, s', threshold_of_nested_takes (Outcome.settled_ofExcept.mp h) hpos hn⟩, hn⟩

theorem exists_threshold_trampoline {fuel limit remaining : Nat} {c : Call}
    (h : (c.answer (trampoline fuel limit remaining)).1.Settled) :
    ∃ n, (∃ r s', Threshold false c r s' n) ∧
      TakesFrom fuel c (c.answer (trampoline fuel limit remaining)) n := by
  obtain ⟨n, hpos, hn⟩ := exists_trampoline_takes fuel limit remaining c h
  obtain ⟨r, s', hans⟩ := Outcome.exists_eq_ofExcept h.ended
  rw [hans] at h hn ⊢
  exact ⟨n, ⟨r, s', threshold_of_trampoline_takes (Outcome.settled_ofExcept.mp h) hpos hn⟩, hn⟩

/-- Every evaluation that ends without a depth error has a threshold, which is one more than the
    largest threshold of the evaluations inside it. -/
theorem exists_threshold_eq_demand_inner (ev : Evaluator) (fuel : Nat) (e : Expr) (env : EnvId)
    (s s' : Store) (r : Except EvalError Value) (h : ev.eval fuel e env s = (.ofExcept r, s'))
    (hr : ∀ n, r ≠ .error (.depth n)) :
    ∃ (n : Nat) (need : Call → Nat), Threshold ev.recursive ⟨e, env, s⟩ r s' n ∧
      (∀ c ∈ ev.inner fuel e env s, ∃ r' s'', Threshold ev.recursive c r' s'' (need c)) ∧
      n = 1 + largest ((ev.inner fuel e env s).map need) := by
  have hsettled : (Outcome.ofExcept r).Settled := Outcome.settled_ofExcept.mpr hr
  obtain ⟨levels, hlevels⟩ : ∃ levels, ev.limit = levels + 1 :=
    ⟨ev.limit - 1, by have := ev.one_le_limit; omega⟩
  have hpred : ev.limit - 1 = levels := by omega
  cases hrec : ev.recursive with
  | true =>
    rw [Evaluator.eval_of_recursive hrec, hlevels] at h
    rw [Evaluator.inner, if_pos hrec, hpred, hlevels]
    have hs : (nested (levels + 1) (levels + 1) e env s).1.Settled := by rw [h]; exact hsettled
    have hcalls : ∀ c ∈ nestedCalls (nested (levels + 1) levels) e env s, _ :=
      fun c hc => exists_threshold_nested (settled_of_mem_nestedCalls hs hc)
    choose! need hneed using hcalls
    have htakes := nested_takes fun c hc => (hneed c hc).2
    rw [h] at htakes
    exact ⟨_, need, threshold_of_nested_takes hr (Nat.succ_pos _) htakes,
      fun c hc => (hneed c hc).1, Nat.add_comm _ 1⟩
  | false =>
    rw [Evaluator.eval_of_not_recursive hrec, hlevels] at h
    rw [Evaluator.inner, if_neg (by rw [hrec]; exact Bool.false_ne_true), hpred, hlevels]
    have hs : (trampoline fuel (levels + 1) (levels + 1) e env s).1.Settled := by
      rw [h]; exact hsettled
    have hcalls : ∀ c ∈ loopCalls (trampoline fuel (levels + 1) levels) fuel e env s, _ :=
      fun c hc => exists_threshold_trampoline (settled_of_mem_loopCalls hs hc)
    choose! need hneed using hcalls
    have htakes := trampoline_takes hs fun c hc => (hneed c hc).2
    rw [h] at htakes
    exact ⟨_, need, threshold_of_trampoline_takes hr (Nat.succ_pos _) htakes,
      fun c hc => (hneed c hc).1, Nat.add_comm _ 1⟩

/-- The sample call, which the trampoline returns from under a limit of four. -/
theorem sampleCall_threshold : ∃ (n : Nat) (need : Call → Nat),
    Threshold false ⟨sampleCall, 0, sampleStore⟩ (.ok (.num .zero))
      (trampoline 5 4 4 sampleCall 0 sampleStore).2 n ∧
    (∀ c ∈ Evaluator.inner ⟨false, 4⟩ 5 sampleCall 0 sampleStore,
      ∃ r' s'', Threshold false c r' s'' (need c)) ∧
    n = 1 + largest ((Evaluator.inner ⟨false, 4⟩ 5 sampleCall 0 sampleStore).map need) :=
  exists_threshold_eq_demand_inner ⟨false, 4⟩ 5 sampleCall 0 sampleStore _ (.ok (.num .zero)) rfl
    (by rintro k ⟨⟩)

end FlatScheme
