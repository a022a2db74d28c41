import FlatScheme.Proofs.Eval.WellFormed
import Mathlib.Data.List.Forall2

/-!
One depth counter for many evaluations.

The evaluators count depth down, and hand to each part what is left. An evaluator can as well keep a
counter of the evaluations under way: it counts up when one begins, unless the limit is reached, and
counts down when one ends, in whatever way. The counter is shared by all nested evaluations, and by all
evaluations that are asked of the evaluator one after the other. So an end that failed to count down,
or did so twice, would be felt by everything that comes later.

`Evaluator.metered` is that evaluator. It starts from the value that the counter happens to have, and
keeps account of the values that the counter takes. Wherever it starts, it leaves the counter as it was
(`meteredTo_tracks`). So it has the answers of `Evaluator.eval`, one call after the other.
-/

namespace FlatScheme

namespace Eval

/-- What a computation comes to when a counter goes along: its result, the counter as it leaves it, and
    the values that the counter took on the way. -/
structure Metered (α : Type) where
  result : Outcome α × Store
  depth : Int
  readings : List Int

/-- Remember the values that the counter took before. -/
def Metered.behind {α : Type} (before : List Int) (m : Metered α) : Metered α :=
  { m with readings := before ++ m.readings }

/-- Hold a dialogue with an evaluator that keeps a counter. -/
def Dialogue.meter (sub : Expr → EnvId → Store → Int → Metered Value) :
    Dialogue → Int → Metered Next
  | .done r, d => ⟨r, d, []⟩
  | .ask c k, d =>
    match sub c.expr c.env c.store d with
    | ⟨(.ok v, s), d', readings⟩ => ((k v s).meter sub d').behind readings
    | ⟨(.error e, s), d', readings⟩ => ⟨(.error e, s), d', readings⟩
    | ⟨(.outOfFuel, s), d', readings⟩ => ⟨(.outOfFuel, s), d', readings⟩

/-- Finish a step: a value is the result, a tail is handed to `tail`. -/
def Metered.follow (tail : Expr → EnvId → Store → Int → Metered Value) :
    Metered Next → Metered Value
  | ⟨(.ok (.value v), s), d, readings⟩ => ⟨(.ok v, s), d, readings⟩
  | ⟨(.ok (.tail e env), s), d, readings⟩ => (tail e env s d).behind readings
  | ⟨(.error e, s), d, readings⟩ => ⟨(.error e, s), d, readings⟩
  | ⟨(.outOfFuel, s), d, readings⟩ => ⟨(.outOfFuel, s), d, readings⟩

/-- Follow tails on the spot, at most `fuel` of them. -/
def Metered.bounce (sub : Expr → EnvId → Store → Int → Metered Value) :
    (fuel : Nat) → Expr → EnvId → Store → Int → Metered Value
  | 0, _, _, s, d => ⟨(.outOfFuel, s), d, []⟩
  | fuel + 1, e, env, s, d =>
    ((Dialogue.step e env s).meter sub d).follow (Metered.bounce sub fuel)

/-- One evaluation: refused if the counter has reached the limit, else counted while it is under way.
    It ends by counting down from wherever the counter is then. -/
def Metered.counted (limit : Nat) (s : Store) (body : Int → Metered Value) (d : Int) :
    Metered Value :=
  if limit ≤ d then ⟨(.error (.depth limit), s), d, []⟩
  else
    let m := body (d + 1)
    ⟨m.result, m.depth - 1, (d + 1) :: m.readings ++ [m.depth - 1]⟩

end Eval

open Eval

/-- The evaluator with a counter, for evaluations that nest less than `levels` deep. -/
def Evaluator.meteredTo (ev : Evaluator) (fuel : Nat) :
    (levels : Nat) → Expr → EnvId → Store → Int → Metered Value
  | 0, _, _, s, d => ⟨(.outOfFuel, s), d, []⟩
  | levels + 1, e, env, s, d =>
    Metered.counted ev.limit s
      (fun d =>
        if ev.recursive then
          ((Dialogue.step e env s).meter (ev.meteredTo fuel levels) d).follow
            (ev.meteredTo fuel levels)
        else Metered.bounce (ev.meteredTo fuel levels) fuel e env s d)
      d

/-- The evaluator with a counter. From the value that the counter has, it cannot count further than to
    the limit; one more level is for the evaluation that is refused. -/
def Evaluator.metered (ev : Evaluator) (fuel : Nat) (e : Expr) (env : EnvId) (s : Store) (d : Int) :
    Metered Value :=
  ev.meteredTo fuel ((ev.limit - d).toNat + 1) e env s d

/-- The evaluator without a counter, with `remaining` levels of depth left. -/
def Evaluator.within (ev : Evaluator) (fuel remaining : Nat) : Expr → EnvId → Run Value :=
  if ev.recursive then nested ev.limit remaining else trampoline fuel ev.limit remaining

theorem Evaluator.within_of_recursive (ev : Evaluator) (h : ev.recursive = true)
    (fuel remaining : Nat) : ev.within fuel remaining = nested ev.limit remaining :=
  if_pos h

theorem Evaluator.within_of_not_recursive (ev : Evaluator) (h : ev.recursive = false)
    (fuel remaining : Nat) : ev.within fuel remaining = trampoline fuel ev.limit remaining :=
  if_neg (by simp [h])

theorem Evaluator.within_limit (ev : Evaluator) (fuel : Nat) :
    ev.within fuel ev.limit = ev.eval fuel := by
  cases h : ev.recursive with
  | true => rw [within_of_recursive ev h, eval_of_recursive h]
  | false => rw [within_of_not_recursive ev h, eval_of_not_recursive h]

namespace Eval

/-! ### The counter is left as it was -/

/-- The metered computation has the result `r`, leaves the counter at `d`, and never took it below `d`
    or above the limit. -/
structure Balanced {α : Type} (limit : Nat) (d : Int) (r : Outcome α × Store) (m : Metered α) :
    Prop where
  result : m.result = r
  depth : m.depth = d
  readings : ∀ n ∈ m.readings, d ≤ n ∧ n ≤ limit

/-- Started with the counter at `d`, the metered evaluator is balanced and has the answers of the
    other. -/
def Tracks (limit : Nat) (d : Int) (sub : Expr → EnvId → Store → Int → Metered Value)
    (plain : Expr → EnvId → Run Value) : Prop :=
  ∀ e env s, Balanced limit d (plain e env s) (sub e env s d)

variable {α : Type} {limit : Nat} {d : Int} {sub tail : Expr → EnvId → Store → Int → Metered Value}
  {plain plainTail : Expr → EnvId → Run Value}

theorem Balanced.here (r : Outcome α × Store) : Balanced limit d r ⟨r, d, []⟩ :=
  ⟨rfl, rfl, by simp⟩

theorem Balanced.behind {r : Outcome α × Store} {m : Metered α} {before : List Int}
    (h : Balanced limit d r m) (hbefore : ∀ n ∈ before, d ≤ n ∧ n ≤ limit) :
    Balanced limit d r (m.behind before) where
  result := h.result
  depth := h.depth
  readings := by
    intro n hn
    rcases List.mem_append.mp hn with hn | hn
    · exact hbefore n hn
    · exact h.readings n hn

theorem meter_balanced (hsub : Tracks limit d sub plain) (dialogue : Dialogue) :
    Balanced limit d (dialogue.run plain) (dialogue.meter sub d) := by
  induction dialogue with
  | done r => exact .here r
  | ask c k ih =>
    have hcall := hsub c.expr c.env c.store
    simp only [Dialogue.run, Dialogue.meter, Call.answer]
    generalize plain c.expr c.env c.store = r at hcall ⊢
    generalize sub c.expr c.env c.store d = m at hcall ⊢
    obtain ⟨result, depth, readings⟩ := m
    obtain ⟨rfl, rfl, hreadings⟩ := hcall
    rcases result with ⟨v | e | _, s⟩
    · exact (ih v s).behind hreadings
    · exact ⟨rfl, rfl, hreadings⟩
    · exact ⟨rfl, rfl, hreadings⟩

theorem follow_balanced (htail : Tracks limit d tail plainTail) {r : Outcome Next × Store}
    {m : Metered Next} (h : Balanced limit d r m) :
    Balanced limit d (follow plainTail r) (m.follow tail) := by
  obtain ⟨result, depth, readings⟩ := m
  obtain ⟨rfl, rfl, hreadings⟩ := h
  rcases result with ⟨(v | ⟨e, env⟩) | e | _, s⟩
  · exact ⟨rfl, rfl, hreadings⟩
  · exact (htail e env s).behind hreadings
  · exact ⟨rfl, rfl, hreadings⟩
  · exact ⟨rfl, rfl, hreadings⟩

/-- One round: a step, and what it leaves to be done. -/
theorem round_balanced (hsub : Tracks limit d sub plain) (htail : Tracks limit d tail plainTail)
    (e : Expr) (env : EnvId) (s : Store) :
    Balanced limit d (follow plainTail (step plain e env s))
      (((Dialogue.step e env s).meter sub d).follow tail) := by
  rw [step_eq_run]
  exact follow_balanced htail (meter_balanced hsub _)

theorem bounce_tracks (hsub : Tracks limit d sub plain) (fuel : Nat) :
    Tracks limit d (Metered.bounce sub fuel) (bounce plain fuel) := by
  induction fuel with
  | zero =>
    intro e env s
    exact .here _
  | succ fuel ih =>
    intro e env s
    rw [bounce_succ]
    exact round_balanced hsub ih e env s

/-- An evaluation counts itself and then is balanced. -/
theorem counted_balanced {r : Outcome Value × Store} {body : Int → Metered Value} (s : Store)
    (hlt : d < limit) (h : Balanced limit (d + 1) r (body (d + 1))) :
    Balanced limit d r (Metered.counted limit s body d) := by
  have hdepth := h.depth
  unfold Metered.counted
  rw [if_neg (by omega)]
  refine ⟨h.result, ?_, ?_⟩
  · simp only [hdepth]
    omega
  · intro n hn
    simp only [hdepth, List.cons_append, List.mem_cons, List.mem_append, List.not_mem_nil,
      or_false] at hn
    rcases hn with rfl | hn | rfl
    · omega
    · have hrange := h.readings n hn
      omega
    · omega

/-- Wherever the counter starts, it is left there, and the answers are those of the evaluator that has
    as many levels left as the counter may still count. -/
theorem meteredTo_tracks (ev : Evaluator) (fuel : Nat) {levels : Nat} {d : Int}
    (hlevels : (ev.limit - d).toNat < levels) :
    Tracks ev.limit d (ev.meteredTo fuel levels) (ev.within fuel (ev.limit - d).toNat) := by
  induction levels generalizing d with
  | zero => omega
  | succ levels ih =>
    intro e env s
    by_cases hlt : d < ev.limit
    · obtain ⟨remaining, hremaining⟩ : ∃ remaining, (ev.limit - d).toNat = remaining + 1 :=
        ⟨(ev.limit - (d + 1)).toNat, by omega⟩
      have hnext : (ev.limit - (d + 1)).toNat = remaining := by omega
      have hsub := ih (d := d + 1) (by omega)
      rw [hnext] at hsub
      rw [hremaining]
      refine counted_balanced s hlt ?_
      cases hrec : ev.recursive with
      | true =>
        rw [ev.within_of_recursive hrec] at hsub ⊢
        rw [if_pos rfl, nested_succ]
        exact round_balanced hsub hsub e env s
      | false =>
        rw [ev.within_of_not_recursive hrec] at hsub ⊢
        rw [if_neg Bool.false_ne_true]
        exact bounce_tracks hsub fuel e env s
    · have hremaining : (ev.limit - d).toNat = 0 := by omega
      have hrefused : ev.meteredTo fuel (levels + 1) e env s d =
          ⟨(.error (.depth ev.limit), s), d, []⟩ := by
        rw [Evaluator.meteredTo, Metered.counted, if_pos (by omega)]
      have hplain : ev.within fuel 0 e env s = (.error (.depth ev.limit), s) := by
        unfold Evaluator.within
        split <;> rfl
      rw [hremaining, hrefused, hplain]
      exact .here _

/-- Started with the counter at zero, the evaluator has the answers of the one without a counter. -/
theorem metered_tracks (ev : Evaluator) (fuel : Nat) :
    Tracks ev.limit 0 (ev.metered fuel) (ev.eval fuel) := by
  have hlimit : (ev.limit - 0 : Int).toNat = ev.limit := by omega
  rw [← ev.within_limit]
  nth_rewrite 2 [← hlimit]
  exact meteredTo_tracks ev fuel (Nat.lt_succ_self _)

/-! ### Sessions -/

/-- Calls on one evaluator, one after the other. Its settings are reassigned before each call to those of
    the request, and each call finds the counter as the one before has left it. -/
def meteredSession : List Request → Store → Int → List (Metered Value)
  | [], _, _ => []
  | q :: rest, s, d =>
    let reply := q.evaluator.metered q.fuel q.expr q.env s d
    reply :: meteredSession rest reply.result.2 reply.depth

/-- The same calls, each on a new evaluator, whose counter is at zero. -/
def freshSession : List Request → Store → List (Metered Value)
  | [], _ => []
  | q :: rest, s =>
    let reply := q.evaluator.metered q.fuel q.expr q.env s 0
    reply :: freshSession rest reply.result.2

/-- The answers to the same calls, without any counter. -/
def answers : List Request → Store → List (Outcome Value × Store)
  | [], _ => []
  | q :: rest, s =>
    let answer := q.evaluator.eval q.fuel q.expr q.env s
    answer :: answers rest answer.2

end Eval

/-- An evaluator can be used again after any outcome. For every sequence of calls, with the settings
    reassigned between them, each call on one evaluator has the outcome and leaves the store that it
    would on a new evaluator, and that it has without a counter. After each call the counter is back
    at zero, and during the call it was never below zero or above the limit in effect. -/
theorem evaluator_reusable (requests : List Request) (s : Store) :
    meteredSession requests s 0 = freshSession requests s ∧
    (meteredSession requests s 0).map Metered.result = answers requests s ∧
    List.Forall₂ (fun q reply => reply.depth = 0 ∧
        ∀ n ∈ reply.readings, 0 ≤ n ∧ n ≤ q.evaluator.limit)
      requests (meteredSession requests s 0) := by
  induction requests generalizing s with
  | nil => exact ⟨rfl, rfl, .nil⟩
  | cons q rest ih =>
    obtain ⟨hresult, hdepth, hreadings⟩ := metered_tracks q.evaluator q.fuel q.expr q.env s
    obtain ⟨hfresh, hanswers, hbalanced⟩ :=
      ih (q.evaluator.metered q.fuel q.expr q.env s 0).result.2
    have hcons : meteredSession (q :: rest) s 0 =
        q.evaluator.metered q.fuel q.expr q.env s 0 ::
          meteredSession rest (q.evaluator.metered q.fuel q.expr q.env s 0).result.2 0 := by
      rw [meteredSession, hdepth]
    rw [hcons]
    refine ⟨?_, ?_, .cons ⟨hdepth, hreadings⟩ hbalanced⟩
    · rw [hfresh, freshSession]
    · rw [List.map_cons, hanswers, hresult]
      rfl

-- The sample call where it is nested too deep, a host procedure that fails, and the sample call once
-- more with another evaluator and another limit.
example :
    (meteredSession
      [⟨sampleCall, 0, ⟨true, 1⟩, 0⟩, ⟨.list [.quoted (.broken 0 "boom" "no")], 0, ⟨false, 2⟩, 1⟩,
        ⟨sampleCall, 0, ⟨false, 3⟩, 3⟩] sampleStore 0).map (fun m => (m.result.1, m.readings)) =
      [(.error (.depth 1), [1, 0]), (.error (.primitive "boom" (.host "no")), [1, 2, 1, 0]),
        (.ok (.num .zero), [1, 2, 1, 2, 1, 2, 3, 2, 3, 2, 1, 0])] := by
  rfl

end FlatScheme
