import FlatScheme.Proofs.Primitive.Refusal

/-!
The comparisons agree with one another.

All comparisons of two numbers or two strings go back to one `Ordering`, that of the arguments, and
a NaN has them all say no. Hence just one of `<`, `=` and `>` is true of two arguments without a
NaN, and `<=`, `>=` and `!=` are the negations of `>`, `<` and `=`, although `=` is computed on its
own (`equality_and_order_agree`).

A chain compares neighbours only. The strict order is transitive on strings and on numbers, mixed
as they may be, so in a chain that is strictly ordered every argument is in order with every later
one, and equal to none of them (`strict_chain_pairwise`).
-/

namespace FlatScheme.Primitive

variable {operator : String} {test : Ordering → Bool} {u v w : Value} {c : Ordering}
  {args : List Value}

/-! ### The order of two arguments -/

/-- Whatever the operator, there is one order of arguments that can be compared. -/
theorem exists_order_of_comparable (h : Comparable v w) :
    ∃ c, ∀ operator, order operator v w = .ok c := by
  obtain ⟨a, b, rfl, rfl⟩ | ⟨s, t, rfl, rfl⟩ := comparable_iff.mp h
  · exact ⟨a.cmp b, fun _ => rfl⟩
  · exact ⟨compare s t, fun _ => rfl⟩

theorem order_swap (h : order operator v w = .ok c) : order operator w v = .ok c.swap := by
  unfold order at h
  split at h
  · next a b =>
    cases h
    exact congrArg _ (Number.cmp_swap a b)
  · cases h
    exact congrArg _ Std.OrientedOrd.eq_swap
  · cases h

/-- Equality, which is computed on its own, says what the order says, save of a NaN. -/
theorem equal_of_order (h : order operator v w = .ok c) :
    v.equal w = (!isNaN v && !isNaN w && c.isEq) := by
  unfold order at h
  split at h
  · next a b =>
    cases h
    cases hcmp : a.cmp b <;> simp [Value.equal, Number.equal, isNaN, hcmp]
  · cases h
    rw [Bool.eq_iff_iff]
    simp [Value.equal, isNaN, Ordering.isEq_iff_eq_eq]
  · cases h

theorem order_lt_trans (huv : order operator u v = .ok .lt) (hvw : order operator v w = .ok .lt) :
    order operator u w = .ok .lt := by
  unfold order at huv
  split at huv
  · cases w with
    | num c => exact congrArg _ (Number.cmp_lt_trans (Except.ok.inj huv) (Except.ok.inj hvw))
    | _ => cases hvw
  · cases w with
    | str r => exact congrArg _ (Std.TransCmp.lt_trans (Except.ok.inj huv) (Except.ok.inj hvw))
    | _ => cases hvw
  · cases huv

/-! ### What the comparisons say of two arguments -/

theorem comparison_pair (test : Ordering → Bool) (h : order operator v w = .ok c) :
    comparison operator test [v, w] = .ok (.bool (!isNaN v && !isNaN w && test c)) := by
  have hchain : chain operator test [v, w] =
      if isNaN v || isNaN w || !test c then .ok false else .ok true := by
    simp only [chain, h]
    rfl
  simp only [comparison, hchain]
  cases isNaN v <;> cases isNaN w <;> cases test c <;> rfl

/-- The answers of the comparisons to two arguments. -/
structure Answers (v w : Value) (lt le gt ge eq ne : Bool) : Prop where
  less : less.apply [v, w] = .ok (.bool lt)
  lessEqual : lessEqual.apply [v, w] = .ok (.bool le)
  greater : greater.apply [v, w] = .ok (.bool gt)
  greaterEqual : greaterEqual.apply [v, w] = .ok (.bool ge)
  equal : equal.apply [v, w] = .ok (.bool eq)
  notEqual : notEqual.apply [v, w] = .ok (.bool ne)

/-- The order gives all answers of arguments that are ordered, that is, not a NaN. -/
theorem answers_of_order {ordered : Bool} (horder : ∀ operator, order operator v w = .ok c)
    (hordered : ordered = (!isNaN v && !isNaN w)) :
    Answers v w (ordered && c.isLT) (ordered && c.isLE) (ordered && c.isGT) (ordered && c.isGE)
      (ordered && c.isEq) !(ordered && c.isEq) := by
  subst hordered
  have hequal := equal_of_order (horder "<")
  refine ⟨comparison_pair _ (horder _), comparison_pair _ (horder _), comparison_pair _ (horder _),
    comparison_pair _ (horder _), ?_, ?_⟩
  · simp [apply, allEqual, hequal]
  · simp [apply, different, hequal]

/-- The comparisons of two numbers or two strings agree. Of arguments without a NaN just one of `<`,
    `=` and `>` is true, `<=`, `>=` and `!=` are the negations of `>`, `<` and `=`, and `<` is `>` with
    the arguments the other way round. With a NaN all are false but `!=`. -/
theorem equality_and_order_agree (h : Comparable v w) :
    (isNaN v = false → isNaN w = false →
      ∃ lt eq gt, Answers v w lt (!gt) gt (!lt) eq (!eq) ∧ [lt, eq, gt].count true = 1 ∧
        greater.apply [w, v] = .ok (.bool lt)) ∧
      (isNaN v = true ∨ isNaN w = true → Answers v w false false false false false true) := by
  obtain ⟨c, horder⟩ := exists_order_of_comparable h
  have hanswers := answers_of_order horder rfl
  have hback := comparison_pair Ordering.isGT (order_swap (horder ">"))
  refine ⟨fun hv hw => ?_, fun hnan => ?_⟩
  · rw [hv, hw] at hanswers hback
    refine ⟨c.isLT, c.isEq, c.isGT, ?_, ?_, ?_⟩
    · cases c <;> exact hanswers
    · cases c <;> rfl
    · cases c <;> exact hback
  · have hnone : (!isNaN v && !isNaN w) = false := by
      rcases hnan with hv | hw
      · rw [hv, Bool.not_true, Bool.false_and]
      · rw [hw, Bool.not_true, Bool.and_false]
    rw [hnone] at hanswers
    exact hanswers

/-- An integer that no float holds, and the float it is rounded to. -/
theorem neighbour_answers :
    Comparable (.num (.ofInt 9007199254740993)) (.num (.float (.ofInt 9007199254740992))) ∧
      Answers (.num (.ofInt 9007199254740993)) (.num (.float (.ofInt 9007199254740992)))
        false true false true true false ∧
      Answers (.num (.ofInt 9007199254740993)) (.num (.float .nan))
        false false false false false true := by
  have hfloat : Comparable (.num (.ofInt 9007199254740993))
      (.num (.float (.ofInt 9007199254740992))) := .inl ⟨rfl, rfl⟩
  have hnan : Comparable (.num (.ofInt 9007199254740993)) (.num (.float .nan)) := .inl ⟨rfl, rfl⟩
  refine ⟨hfloat, ?_, (equality_and_order_agree hnan).2 (.inr rfl)⟩
  obtain ⟨lt, eq, gt, hanswers, hone, -⟩ := (equality_and_order_agree hfloat).1 rfl rfl
  have hequal : Value.equal (.num (.ofInt 9007199254740993))
      (.num (.float (.ofInt 9007199254740992))) = true := by decide +kernel
  have heq : eq = true := by
    have hanswer := hanswers.equal
    simpa [apply, allEqual, hequal] using hanswer.symm
  subst heq
  obtain ⟨rfl, rfl⟩ : lt = false ∧ gt = false := by
    cases lt <;> cases gt <;> simp at hone ⊢
  exact hanswers

/-! ### Chains -/

theorem inOrder_iff (operator : String) : InOrder test v w ↔
    ∃ c, order operator v w = .ok c ∧ isNaN v = false ∧ isNaN w = false ∧ test c = true := by
  unfold InOrder
  split
  · simp [order, isNaN]
  · simp [order, isNaN]
  · next hnum hstr =>
    have hnot : ¬Comparable v w := by
      intro h
      obtain ⟨a, b, rfl, rfl⟩ | ⟨s, t, rfl, rfl⟩ := comparable_iff.mp h
      · exact hnum a b rfl rfl
      · exact hstr s t rfl rfl
    simp [order_of_not_comparable operator hnot]

/-- A chain is true just if every argument is in order with the next. -/
theorem chain_eq_true_iff (operator : String) (test : Ordering → Bool) : ∀ args : List Value,
    chain operator test args = .ok true ↔ args.IsChain (InOrder test)
  | [] => by simp [chain]
  | [_] => by simp [chain]
  | v :: w :: rest => by
    rw [List.isChain_cons_cons, ← chain_eq_true_iff operator test (w :: rest), chain,
      inOrder_iff operator]
    cases order operator v w with
    | error e => simp [bind, Except.bind]
    | ok c =>
      simp only [bind, Except.bind]
      cases isNaN v <;> cases isNaN w <;> cases htest : test c <;> simp [htest, pure, Except.pure]

theorem comparison_eq_true_iff :
    comparison operator test args = .ok (.bool true) ↔
      2 ≤ args.length ∧ args.IsChain (InOrder test) := by
  rw [← chain_eq_true_iff operator, comparison, atLeastTwo]
  split
  · simp only [bind, Except.bind, reduceCtorEq, false_iff]
    omega
  · next hlength =>
    cases chain operator test args <;>
      simp [bind, Except.bind, pure, Except.pure, Nat.le_of_not_lt hlength]

theorem comparison_pair_eq_true_iff :
    comparison operator test [v, w] = .ok (.bool true) ↔ InOrder test v w := by
  simp [comparison_eq_true_iff]

theorem inOrder_lt_iff (operator : String) : InOrder Ordering.isLT v w ↔
    order operator v w = .ok .lt ∧ isNaN v = false ∧ isNaN w = false := by
  simp [inOrder_iff operator, Ordering.isLT_iff_eq_lt]

theorem inOrder_gt_iff : InOrder Ordering.isGT v w ↔ InOrder Ordering.isLT w v := by
  simp only [inOrder_iff ">"]
  constructor
  · rintro ⟨c, horder, hv, hw, htest⟩
    exact ⟨c.swap, order_swap horder, hw, hv, by rwa [Ordering.isLT_swap]⟩
  · rintro ⟨c, horder, hw, hv, htest⟩
    exact ⟨c.swap, order_swap horder, hv, hw, by rwa [Ordering.isGT_swap]⟩

theorem inOrder_lt_trans (huv : InOrder Ordering.isLT u v) (hvw : InOrder Ordering.isLT v w) :
    InOrder Ordering.isLT u w := by
  rw [inOrder_lt_iff "<"] at *
  exact ⟨order_lt_trans huv.1 hvw.1, huv.2.1, hvw.2.2⟩

instance : Trans (InOrder Ordering.isLT) (InOrder Ordering.isLT) (InOrder Ordering.isLT) :=
  ⟨inOrder_lt_trans⟩

instance : Trans (InOrder Ordering.isGT) (InOrder Ordering.isGT) (InOrder Ordering.isGT) :=
  ⟨fun huv hvw => inOrder_gt_iff.mpr
    (inOrder_lt_trans (inOrder_gt_iff.mp hvw) (inOrder_gt_iff.mp huv))⟩

theorem unequal_of_inOrder_lt (h : InOrder Ordering.isLT v w) :
    v.equal w = false ∧ w.equal v = false := by
  obtain ⟨horder, -, -⟩ := (inOrder_lt_iff "<").mp h
  have hvw := equal_of_order horder
  have hwv := equal_of_order (order_swap horder)
  simp only [Ordering.isEq, Ordering.swap, Bool.and_false] at hvw hwv
  exact ⟨hvw, hwv⟩

/-- In a true chain of a transitive comparison every argument is in order with every later one. -/
theorem pairwise_of_comparison [Trans (InOrder test) (InOrder test) (InOrder test)]
    (h : comparison operator test args = .ok (.bool true)) : args.Pairwise (InOrder test) :=
  List.isChain_iff_pairwise.mp (comparison_eq_true_iff.mp h).2

/-- If `<` or `>` is true of a row of arguments, it is true of each with every later one, and no two
    of them are equal. -/
theorem strict_chain_pairwise {p : Primitive} (hp : p = less ∨ p = greater)
    (h : p.apply args = .ok (.bool true)) :
    args.Pairwise fun v w =>
      p.apply [v, w] = .ok (.bool true) ∧ v.equal w = false ∧ w.equal v = false := by
  rcases hp with rfl | rfl
  · refine (pairwise_of_comparison h).imp fun hlt => ?_
    exact ⟨comparison_pair_eq_true_iff.mpr hlt, unequal_of_inOrder_lt hlt⟩
  · refine (pairwise_of_comparison h).imp fun hgt => ?_
    exact ⟨comparison_pair_eq_true_iff.mpr hgt, (unequal_of_inOrder_lt (inOrder_gt_iff.mp hgt)).symm⟩

/-- Two integers with a float between them, the larger of which no float holds. -/
def ascending : List Value :=
  [.num (.ofInt 9007199254740992), .num (.float (.ofInt 9007199254740994)),
    .num (.int 9007199254740995 true)]

theorem ascending_pairwise : less.apply ascending = .ok (.bool true) ∧
    less.apply [.num (.ofInt 9007199254740992), .num (.int 9007199254740995 true)] =
      .ok (.bool true) := by
  have hfirst : (Number.int 9007199254740992 false).cmp (.float (.ofInt 9007199254740994)) = .lt := by
    decide +kernel
  have hsecond : (Number.float (.ofInt 9007199254740994)).cmp (.int 9007199254740995 true) = .lt := by
    decide +kernel
  have hchain : less.apply ascending = .ok (.bool true) := by
    refine comparison_eq_true_iff.mpr ⟨by decide, ?_⟩
    simp [ascending, inOrder_lt_iff "<", order, hfirst, hsecond, isNaN, Number.isNaN, Number.ofInt,
      Binary64.isNaN_ofInt]
  have hpairs := strict_chain_pairwise (.inl rfl) hchain
  simp only [ascending, List.pairwise_cons, List.forall_mem_cons] at hpairs
  exact ⟨hchain, hpairs.1.2.1.1⟩

end FlatScheme.Primitive
