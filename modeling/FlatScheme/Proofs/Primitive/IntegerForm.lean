import FlatScheme.Proofs.Primitive.Congruence

/-!
The form of integers does not show.

An integer can be held in two forms, ordinary and wide, and programs come by wide ones when they
take zero away. Arguments that differ in nothing but the forms of integers, at any depth, have the
same faults and results of the same text with every primitive (`integer_form_unseen`). There is one
exception, products with a float among the factors: a wide integer and then a float give their sum.
On integers alone the sums, differences and products are exact.
-/

namespace FlatScheme

namespace Value

/-- The value with all integers in its pairs held in the ordinary way. -/
def narrowed : Value → Value
  | .num n => .num n.narrowed
  | .pair car cdr => .pair car.narrowed cdr.narrowed
  | v => v

theorem kind_narrowed (v : Value) : v.narrowed.kind = v.kind := by
  cases v <;> rfl

theorem isTrue_narrowed (v : Value) : v.narrowed.isTrue = v.isTrue := by
  cases v with
  | num n => rw [narrowed, isTrue, isTrue, n.isZero_narrowed]
  | _ => rfl

theorem isEmpty_narrowed (v : Value) : v.narrowed.isEmpty = v.isEmpty := by
  cases v <;> rfl

theorem equal_narrowed (v w : Value) : v.narrowed.equal w.narrowed = v.equal w := by
  induction v using narrowed.induct generalizing w with
  | case1 m =>
    cases w with
    | num n => simp only [narrowed, equal, Number.equal, Number.isNaN_narrowed, Number.cmp_narrowed]
    | _ => rfl
  | case2 car cdr ihcar ihcdr =>
    cases w with
    | pair car' cdr' => simp only [narrowed, equal, ihcar, ihcdr]
    | _ => rfl
  | case3 v hnum hpair =>
    cases v with
    | nil | emptyPair => exact w.isEmpty_narrowed
    | num n => exact absurd rfl (hnum n)
    | pair car cdr => exact absurd rfl (hpair car cdr)
    | _ => cases w <;> rfl

theorem writes_narrowed (v : Value) (after : List String) :
    v.narrowed.writesBefore after = v.writesBefore after ∧
      v.narrowed.tailWrites after = v.tailWrites after := by
  induction v using narrowed.induct generalizing after with
  | case1 n => simp only [narrowed, writesBefore, tailWrites, atomText, n.text_narrowed, and_self]
  | case2 car cdr ihcar ihcdr =>
    simp only [narrowed, writesBefore, tailWrites, (ihcdr after).2, (ihcar _).1, and_self]
  | case3 v hnum hpair =>
    cases v with
    | num n => exact absurd rfl (hnum n)
    | pair car cdr => exact absurd rfl (hpair car cdr)
    | _ => exact ⟨rfl, rfl⟩

theorem text_narrowed (v : Value) : v.narrowed.text = v.text := by
  rw [text, text, writes, writes, (v.writes_narrowed []).1]

theorem eq_num_of_narrowed {v : Value} {m : Number} (h : narrowed (.num m) = v.narrowed) :
    ∃ n, v = .num n ∧ m.narrowed = n.narrowed := by
  cases v <;> simp_all [narrowed]

end Value

namespace Primitive

theorem narrowed_indistinct : Indistinct (fun m n => m.narrowed = n.narrowed)
    (fun v w => v.narrowed = w.narrowed) where
  kind {v v'} h := by rw [← v.kind_narrowed, h, v'.kind_narrowed]
  isTrue {v v'} h := by rw [← v.isTrue_narrowed, h, v'.isTrue_narrowed]
  equal {v v' w w'} hv hw := by
    rw [← v.equal_narrowed, hv, hw, v'.equal_narrowed]
  str {s v'} h := by cases v' <;> simp_all [Value.narrowed]
  bool {b v'} h := by cases v' <;> simp_all [Value.narrowed]
  num h := Value.eq_num_of_narrowed h

theorem add_respects : Respects (fun m n => m.narrowed = n.narrowed) Number.add := by
  intro m m' hm n n' hn
  rw [← Number.add_narrowed m n, hm, hn, Number.add_narrowed]

theorem sub_respects : Respects (fun m n => m.narrowed = n.narrowed) Number.sub := by
  intro m m' hm n n' hn
  rw [← Number.sub_narrowed m n, hm, hn, Number.sub_narrowed]

/-- Products have the form of their factors forgotten as long as there is no float among them. -/
theorem mul_respects : Respects (fun m n => (∃ k wide, m = .int k wide) ∧ m.narrowed = n.narrowed)
    Number.mul := by
  rintro _ m' ⟨⟨k, v, rfl⟩, hm⟩ _ n' ⟨⟨l, w, rfl⟩, hn⟩
  obtain ⟨v', rfl⟩ := Number.eq_int_of_narrowed hm
  obtain ⟨w', rfl⟩ := Number.eq_int_of_narrowed hn
  exact ⟨⟨k * l, false, rfl⟩, rfl⟩

/-- Calls with the one and the other arguments both fail with the same error, or both give values
    of the same kind and text. -/
def CallsAlike (p : Primitive) (args args' : List Value) : Prop :=
  ∀ s : Store,
    (∃ fault, Eval.call (.prim p) args s = (.error (.primitive p.name fault), s) ∧
      Eval.call (.prim p) args' s = (.error (.primitive p.name fault), s)) ∨
    ∃ v v', Eval.call (.prim p) args s = (.ok (.value v), s) ∧
      Eval.call (.prim p) args' s = (.ok (.value v'), s) ∧ v.kind = v'.kind ∧ v.text = v'.text

theorem callsAlike_of_concur {p : Primitive} {args args' : List Value}
    (h : Concur (Value.UpTo fun m n => m.narrowed = n.narrowed) (p.apply args) (p.apply args')) :
    CallsAlike p args args' := by
  intro s
  have hname : ∀ e, p.apply args = .error e → e.operator = p.name :=
    fun e => operator_of_apply_error
  simp only [Eval.call]
  generalize p.apply args = result at h hname
  generalize p.apply args' = result' at h
  cases h with
  | error e =>
    rw [← hname e rfl]
    exact .inl ⟨e.fault, rfl, rfl⟩
  | ok hvalue =>
    refine .inr ⟨_, _, rfl, rfl, ?_⟩
    cases hvalue with
    | same v => exact ⟨rfl, rfl⟩
    | @num m n h =>
      refine ⟨rfl, ?_⟩
      rw [← Value.text_narrowed, Value.narrowed, h, ← Value.narrowed, Value.text_narrowed]

/-- Primitives other than products with a float do not see the form of integers. -/
theorem callsAlike_of_narrowed {p : Primitive} {args args' : List Value}
    (h : args.map Value.narrowed = args'.map Value.narrowed)
    (hfloat : p = mul → ∀ x, .num (.float x) ∉ args) : CallsAlike p args args' := by
  have hargs : List.Forall₂ (fun v w => v.narrowed = w.narrowed) args args' := by
    rw [← List.forall₂_eq_eq_eq] at h
    simpa only [List.forall₂_map_left_iff, List.forall₂_map_right_iff] using h
  apply callsAlike_of_concur
  by_cases hp : p = mul
  · subst hp
    -- the numbers among the factors are integers, and so are their products
    have hints : ∀ v ∈ args, ∀ m, v = .num m → ∃ k wide, m = .int k wide := by
      rintro _ hv (⟨k, wide⟩ | x) rfl
      · exact ⟨k, wide, rfl⟩
      · exact absurd hv (hfloat rfl x)
    have hproducts := apply_concur (narrowed_indistinct.restrict fun m => ∃ k wide, m = .int k wide)
      (fun h => h.2) mul (fun f hf => Option.some.inj hf ▸ mul_respects)
      ((List.forall₂_and_left args args').mpr ⟨hints, hargs⟩)
    exact hproducts.mono fun _ _ hv => hv.mono fun _ _ h => h.2
  · refine apply_concur narrowed_indistinct id p (fun f hf => ?_) hargs
    cases p with
    | add => exact Option.some.inj hf ▸ add_respects
    | sub => exact Option.some.inj hf ▸ sub_respects
    | mul => exact absurd rfl hp
    | _ => cases hf

/-! ### Integers alone -/

theorem allNumbers_map (operator : String) (ns : List Number) :
    allNumbers operator (ns.map .num) = .ok ns := by
  induction ns with
  | nil => rfl
  | cons n ns ih => rw [List.map_cons, allNumbers, ih, Except.map]

theorem arithmetic_map (operator : String) (f : Number → Number → Number) {ns : List Number}
    (h : 2 ≤ ns.length) :
    arithmetic operator f (ns.map .num) = .ok (.num (foldNumbers f ns)) := by
  have htwo : atLeastTwo operator (ns.map Value.num) = .ok () := by
    rw [atLeastTwo, List.length_map, if_neg (Nat.not_lt.mpr h)]
  rw [arithmetic, numbers, htwo, allNumbers_map]
  rfl

/-- Integers as arguments, each in the form that is given with it. -/
def wholes (ns : List (Int × Bool)) : List Value := ns.map fun n => .num (.int n.1 n.2)

/-- An operation that is exact on two integers combines any number of them exactly, from the left. -/
theorem arithmetic_wholes {operator : String} {f : Number → Number → Number} {g : Int → Int → Int}
    (hfg : ∀ a b v w, ∃ wide, f (.int a v) (.int b w) = .int (g a b) wide) (n : Int × Bool)
    {ns : List (Int × Bool)} (hns : ns ≠ []) :
    ∃ wide, arithmetic operator f (wholes (n :: ns)) =
      .ok (.num (.int (ns.foldl (fun a m => g a m.1) n.1) wide)) := by
  have hfold : ∀ (ns : List (Int × Bool)) (a : Int) (v : Bool), ∃ wide,
      (ns.map fun n => Number.int n.1 n.2).foldl f (.int a v) =
        .int (ns.foldl (fun a m => g a m.1) a) wide := by
    intro ns
    induction ns with
    | nil => exact fun a v => ⟨v, rfl⟩
    | cons m ns ih =>
      intro a v
      obtain ⟨w, hw⟩ := hfg a m.1 v m.2
      rw [List.map_cons, List.foldl_cons, List.foldl_cons, hw]
      exact ih (g a m.1) w
  have hargs : wholes (n :: ns) = ((n :: ns).map fun n => Number.int n.1 n.2).map .num := by
    rw [wholes, List.map_map]
    rfl
  have hlength : 2 ≤ ((n :: ns).map fun n => Number.int n.1 n.2).length := by
    have hpos := List.length_pos_of_ne_nil hns
    simp only [List.length_map, List.length_cons]
    omega
  obtain ⟨wide, hwide⟩ := hfold ns n.1 n.2
  rw [hargs, arithmetic_map operator f hlength]
  exact ⟨wide, by rw [List.map_cons, foldNumbers, hwide]⟩

/-! ### What is seen and what is not -/

theorem CallsAlike.text_eq {p : Primitive} {args args' : List Value} {v v' : Value}
    (h : CallsAlike p args args') (hv : p.apply args = .ok v) (hv' : p.apply args' = .ok v') :
    v.text = v'.text := by
  have hcalls := h .empty
  simp only [Eval.call, hv, hv'] at hcalls
  obtain ⟨fault, hfault, -⟩ | ⟨w, w', hw, hw', -, htext⟩ := hcalls
  · cases hfault
  · cases hw
    cases hw'
    exact htext

/-- Five thousand million less zero, times two, is not five thousand million times two. -/
theorem product_with_float_seen : ¬CallsAlike mul
    [.num ((Number.ofInt 5000000000).sub .zero), .num (.float (.ofInt 2))]
    [.num (.ofInt 5000000000), .num (.float (.ofInt 2))] := by
  intro h
  have htext := h.text_eq rfl rfl
  revert htext
  decide +kernel

/-- Primitives do not see in which form integers are held, wherever they stand in the arguments:
    calls fail with the same error or give values of the same text. The only exception are products
    with a float among the factors. On integers alone sums, differences and products are exact, from
    the left. -/
theorem integer_form_unseen :
    (∀ (p : Primitive) (args args' : List Value),
      args.map Value.narrowed = args'.map Value.narrowed →
        (p = mul → ∀ x, .num (.float x) ∉ args) → CallsAlike p args args') ∧
      (∃ args args' : List Value, args.map Value.narrowed = args'.map Value.narrowed ∧
        ¬CallsAlike mul args args') ∧
      ∀ (n : Int × Bool) (ns : List (Int × Bool)), ns ≠ [] →
        (∃ wide, add.apply (wholes (n :: ns)) =
          .ok (.num (.int (ns.foldl (fun a m => a + m.1) n.1) wide))) ∧
        (∃ wide, sub.apply (wholes (n :: ns)) =
          .ok (.num (.int (ns.foldl (fun a m => a - m.1) n.1) wide))) ∧
        ∃ wide, mul.apply (wholes (n :: ns)) =
          .ok (.num (.int (ns.foldl (fun a m => a * m.1) n.1) wide)) := by
  refine ⟨fun p args args' => callsAlike_of_narrowed, ?_, fun n ns hns => ⟨?_, ?_, ?_⟩⟩
  · have hforms : ((Number.ofInt 5000000000).sub .zero).narrowed =
        (Number.ofInt 5000000000).narrowed := by decide +kernel
    exact ⟨_, _, by simp only [List.map_cons, Value.narrowed, hforms], product_with_float_seen⟩
  · exact arithmetic_wholes (fun a b v w => ⟨false, rfl⟩) n hns
  · exact arithmetic_wholes (fun a b v w => Number.exists_sub_int a b v w) n hns
  · exact arithmetic_wholes (fun a b v w => ⟨false, rfl⟩) n hns

/-- Zero taken from five thousand million, held in one form and in the other. -/
theorem wide_less_zero_alike :
    CallsAlike sub [.num (.int 5000000000 true), .num .zero]
        [.num (.ofInt 5000000000), .num .zero] ∧
      ∃ wide, sub.apply (wholes [(5000000000, true), (0, false)]) =
        .ok (.num (.int 5000000000 wide)) := by
  obtain ⟨halike, -, hexact⟩ := integer_form_unseen
  have hdifference := (hexact (5000000000, true) [(0, false)] (List.cons_ne_nil _ _)).2.1
  exact ⟨halike sub _ _ rfl (fun h => nomatch h), hdifference⟩

end Primitive

end FlatScheme
