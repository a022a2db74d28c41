import FlatScheme.Proofs.Reader.EndOfInput

/-!
What a source delivers.

The calls of `next` on one source return expressions, one after the other, until for the first time
something else comes: the end of the input or a fault. This sequence is fixed by the source alone
(`exists_delivers`). Reading all expressions, and running them as they are read, depend on the source
through nothing else.
-/

namespace FlatScheme

/-- What comes of reading all expressions, if `xs` are delivered first. -/
def Stop.collected (xs : List Expr) : Stop → Except Fault (List Expr)
  | .finish => .ok xs
  | .fault f => .error f

namespace Source

/-- The calls of `next` return the expressions `xs`, and the call behind them returns `stop`. -/
inductive Delivers : Source → List Expr → Stop → Prop
  | stop {src rest : Source} {stop : Stop} (h : src.next = (.error stop, rest)) :
      Delivers src [] stop
  | cons {src rest : Source} {x : Expr} {xs : List Expr} {stop : Stop}
      (first : src.next = (.ok x, rest)) (others : Delivers rest xs stop) :
      Delivers src (x :: xs) stop

theorem exists_delivers (src : Source) : ∃ xs stop, Delivers src xs stop := by
  -- an expression costs at least one character
  induction hn : src.unread.length using Nat.strong_induction_on generalizing src with
  | _ n ih =>
    rcases hnext : src.next with ⟨stop | x, rest⟩
    · exact ⟨[], stop, .stop hnext⟩
    · have hshorter : rest.unread.length < n := by
        rw [← hn]
        exact next_length hnext
      obtain ⟨xs, stop, hrest⟩ := ih _ hshorter rest rfl
      exact ⟨x :: xs, stop, .cons hnext hrest⟩

variable {src : Source} {xs : List Expr} {stop : Stop}

/-- The delivery, call by call. -/
theorem Delivers.next_after (h : Delivers src xs stop) :
    (∀ i x, xs[i]? = some x → (src.after i).next.1 = .ok x) ∧
      (src.after xs.length).next.1 = .error stop := by
  induction h with
  | stop h => simp [after, h]
  | cons first others ih =>
    refine ⟨?_, ?_⟩
    · intro i y hy
      cases i with
      | zero => rw [after, first, ← Option.some.inj hy]
      | succ i =>
        rw [after_succ first]
        exact ih.1 i y hy
    · rw [List.length_cons, after_succ first]
      exact ih.2

theorem Delivers.readRest (h : Delivers src xs stop) (done : List Expr) :
    src.readRest done = stop.collected (done.reverse ++ xs) := by
  induction h generalizing done with
  | @stop src rest stop h =>
    rw [readRest_eq, h]
    cases stop <;> simp [Stop.collected]
  | cons first others ih =>
    rw [readRest_eq, first]
    dsimp only
    rw [ih]
    simp

theorem Delivers.readAll (h : Delivers src xs stop) : src.readAll = stop.collected xs :=
  h.readRest []

theorem delivers_of_readAll_ok (h : src.readAll = .ok xs) : Delivers src xs .finish := by
  obtain ⟨ys, stop, hdelivers⟩ := exists_delivers src
  rw [hdelivers.readAll] at h
  cases stop with
  | finish =>
    cases h
    exact hdelivers
  | fault f => cases h

theorem delivers_of_readAll_error {f : Fault} (h : src.readAll = .error f) :
    ∃ ys, Delivers src ys (.fault f) := by
  obtain ⟨ys, stop, hdelivers⟩ := exists_delivers src
  rw [hdelivers.readAll] at h
  cases stop with
  | finish => cases h
  | fault f =>
    cases h
    exact ⟨ys, hdelivers⟩

end Source

end FlatScheme
