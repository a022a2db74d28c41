import FlatScheme.Eval.Step
import FlatScheme.Proofs.Number.Order
import Mathlib.Data.List.Chain

/-!
When primitives refuse their arguments, and what they give otherwise.

`Refuses p args` says, by the number and the kinds of the arguments, when `p` has no answer for
them; `resultKind` is the kind of the answer otherwise. Arithmetic, booleans and concatenation
refuse an argument of a wrong kind wherever it stands. A chained comparison does so only if it gets
there: two neighbours that cannot be compared are refused if all neighbours in front of them are in
order.

Each part of a primitive is judged on its own (`RefusesIff`), and the judgements are put together
along the sequence of the parts. A judgement names the operator that a refusal is reported under, so
that all parts of a primitive have to be given the same, and it has to be the primitive's name.
-/

namespace FlatScheme.Primitive

/-! ### Judgements -/

/-- The result is an error under the operator if there is reason to refuse, and otherwise good. -/
inductive RefusesIff {α : Type} (operator : String) (reason : Prop) (good : α → Prop) :
    Except PrimitiveError α → Prop
  | ok {a : α} (h : ¬reason) (ha : good a) : RefusesIff operator reason good (.ok a)
  | error (h : reason) (fault : PrimitiveFault) :
    RefusesIff operator reason good (.error ⟨operator, fault⟩)

namespace RefusesIff

variable {α β : Type} {operator : String} {reason reason' : Prop} {good : α → Prop}
  {good' : β → Prop} {m : Except PrimitiveError α}

theorem congr (h : RefusesIff operator reason good m) (hiff : reason ↔ reason') :
    RefusesIff operator reason' good m := by
  rwa [← hiff]

/-- A sequence refuses for the reasons of either part. -/
theorem bind {k : α → Except PrimitiveError β} (h : RefusesIff operator reason good m)
    (hk : ∀ a, good a → RefusesIff operator reason' good' (k a)) :
    RefusesIff operator (reason ∨ reason') good' (m >>= k) := by
  cases h with
  | error hreason fault => exact .error (.inl hreason) fault
  | @ok a hnot ha =>
    refine (hk a ha).congr ?_
    simp [hnot]

theorem map {f : α → β} (h : RefusesIff operator reason good m) (hf : ∀ a, good a → good' (f a)) :
    RefusesIff operator reason good' (m >>= fun a => pure (f a)) := by
  cases h with
  | error hreason fault => exact .error hreason fault
  | ok hnot ha => exact .ok hnot (hf _ ha)

end RefusesIff

/-! ### Counting and sorting the arguments -/

theorem atLeastTwo_refusesIff (operator : String) (args : List Value) :
    RefusesIff operator (args.length < 2) (fun _ => True) (atLeastTwo operator args) := by
  unfold atLeastTwo
  split
  · next h => exact .error h _
  · next h => exact .ok h trivial

/-- A function that takes the arguments of one kind and no others refuses a list just when there is
    an argument of another kind in it. -/
theorem refusesIff_of_kind {α : Type} {operator : String} (wrap : α → Value) {kind : Kind}
    {f : List Value → Except PrimitiveError (List α)} (hkind : ∀ v, v.kind = kind ↔ ∃ a, v = wrap a)
    (hnil : f [] = .ok []) (hcons : ∀ a rest, f (wrap a :: rest) = (f rest).map (a :: ·))
    (hother : ∀ v rest, v.kind ≠ kind → ∃ fault, f (v :: rest) = .error ⟨operator, fault⟩)
    (args : List Value) :
    RefusesIff operator (∃ v ∈ args, v.kind ≠ kind) (fun as => args = as.map wrap) (f args) := by
  induction args with
  | nil =>
    rw [hnil]
    exact .ok (by simp) rfl
  | cons v rest ih =>
    by_cases hv : v.kind = kind
    · obtain ⟨a, rfl⟩ := (hkind v).mp hv
      have hrest : RefusesIff operator (∃ w ∈ rest, w.kind ≠ kind)
          (fun as => wrap a :: rest = as.map wrap) (f (wrap a :: rest)) := by
        rw [hcons]
        exact ih.map fun as has => by rw [has, List.map_cons]
      exact hrest.congr (by simp [hv])
    · obtain ⟨fault, hfault⟩ := hother v rest hv
      rw [hfault]
      exact .error ⟨v, List.mem_cons_self, hv⟩ fault

theorem allNumbers_refusesIff (operator : String) (args : List Value) :
    RefusesIff operator (∃ v ∈ args, v.kind ≠ .number) (fun ns => args = ns.map .num)
      (allNumbers operator args) := by
  refine refusesIff_of_kind Value.num (fun v => ?_) rfl (fun _ _ => rfl) (fun v rest hv => ?_) args
  · cases v <;> simp [Value.kind]
  · cases v <;> simp_all [Value.kind, allNumbers]

theorem allStrings_refusesIff (args : List Value) :
    RefusesIff "+" (∃ v ∈ args, v.kind ≠ .string) (fun ss => args = ss.map .str)
      (allStrings args) := by
  refine refusesIff_of_kind Value.str (fun v => ?_) rfl (fun _ _ => rfl) (fun v rest hv => ?_) args
  · cases v <;> simp [Value.kind]
  · cases v <;> simp_all [Value.kind, allStrings]

theorem allBooleans_refusesIff (operator : String) (args : List Value) :
    RefusesIff operator (∃ v ∈ args, v.kind ≠ .boolean) (fun bs => args = bs.map .bool)
      (allBooleans operator args) := by
  refine refusesIff_of_kind Value.bool (fun v => ?_) rfl (fun _ _ => rfl) (fun v rest hv => ?_) args
  · cases v <;> simp [Value.kind]
  · cases v <;> simp_all [Value.kind, allBooleans]

/-! ### Arithmetic -/

theorem numbers_refusesIff (operator : String) (args : List Value) :
    RefusesIff operator (args.length < 2 ∨ ∃ v ∈ args, v.kind ≠ .number)
      (fun ns => args = ns.map .num) (numbers operator args) :=
  (atLeastTwo_refusesIff operator args).bind fun _ _ => allNumbers_refusesIff operator args

theorem arithmetic_refusesIff (operator : String) (f : Number → Number → Number)
    (args : List Value) :
    RefusesIff operator (args.length < 2 ∨ ∃ v ∈ args, v.kind ≠ .number)
      (fun v => v.kind = .number) (arithmetic operator f args) :=
  (numbers_refusesIff operator args).map fun _ _ => rfl

/-- Is the value a zero: the integer in either form, or the float of either sign? -/
def IsZero (v : Value) : Prop :=
  (∃ wide, v = .num (.int 0 wide)) ∨ ∃ negative, v = .num (.float (.zero negative))

theorem isZero_num (n : Number) : IsZero (.num n) ↔ n.isZero = true := by
  simp [IsZero, Number.isZero_iff]

theorem divideBy_refusesIff (n : Number) (divisors : List Number) :
    RefusesIff "/" (∃ v ∈ divisors.map Value.num, IsZero v) (fun _ => True)
      (divideBy n divisors) := by
  induction divisors generalizing n with
  | nil => exact .ok (by simp) trivial
  | cons d divisors ih =>
    rw [divideBy]
    split
    · next hzero => exact .error ⟨.num d, List.mem_cons_self, (isZero_num d).mpr hzero⟩ _
    · next hzero => exact (ih (n.div d)).congr (by simp [isZero_num, hzero])

theorem divide_refusesIff (args : List Value) :
    RefusesIff "/" ((args.length < 2 ∨ ∃ v ∈ args, v.kind ≠ .number) ∨ ∃ v ∈ args.tail, IsZero v)
      (fun v => v.kind = .number) (divide args) := by
  refine (numbers_refusesIff "/" args).bind ?_
  rintro ns rfl
  cases ns with
  | nil => exact .ok (by simp) rfl
  | cons n divisors => exact (divideBy_refusesIff n divisors).map fun _ _ => rfl

theorem floorDivide_refusesIff (operator : String) (args : List Value) :
    RefusesIff operator
      (args.length ≠ 2 ∨ (∃ v ∈ args, v.kind ≠ .number) ∨ ∃ v ∈ args.tail, IsZero v)
      (fun _ => True) (floorDivide operator args) := by
  have hparts : RefusesIff operator ((args.length < 2 ∨ ∃ v ∈ args, v.kind ≠ .number) ∨
      (args.length ≠ 2 ∨ ∃ v ∈ args.tail, IsZero v)) (fun _ => True)
      (floorDivide operator args) := by
    refine (numbers_refusesIff operator args).bind ?_
    rintro ns rfl
    split
    · next x y =>
      split
      · next hzero => exact .error (by simp [isZero_num, hzero]) _
      · next hzero => exact .ok (by simp [isZero_num, hzero]) trivial
    · next hnot =>
      refine .error (.inl ?_) _
      rw [List.length_map, Ne, List.length_eq_two]
      rintro ⟨x, y, rfl⟩
      exact hnot x y rfl
  exact hparts.congr (by grind)

/-! ### Strings and booleans -/

/-- The kind of arguments that are added: strings if the first is one, and else numbers. -/
def sumKind : List Value → Kind
  | .str _ :: _ => .string
  | _ => .number

theorem concatenate_refusesIff (args : List Value) :
    RefusesIff "+" (args.length < 2 ∨ ∃ v ∈ args, v.kind ≠ .string) (fun v => v.kind = .string)
      (concatenate args) := by
  refine (atLeastTwo_refusesIff "+" args).bind fun _ _ => ?_
  exact (allStrings_refusesIff args).map fun _ _ => rfl

theorem addition_refusesIff (args : List Value) :
    RefusesIff "+" (args.length < 2 ∨ ∃ v ∈ args, v.kind ≠ sumKind args)
      (fun v => v.kind = sumKind args) (addition args) := by
  cases args with
  | nil => exact arithmetic_refusesIff "+" .add []
  | cons v rest =>
    cases v with
    | str s => exact concatenate_refusesIff (.str s :: rest)
    | _ => exact arithmetic_refusesIff "+" .add _

theorem logical_refusesIff (operator : String) (f : List Bool → Bool) (args : List Value) :
    RefusesIff operator (args.length < 2 ∨ ∃ v ∈ args, v.kind ≠ .boolean)
      (fun v => v.kind = .boolean) (logical operator f args) := by
  refine (atLeastTwo_refusesIff operator args).bind fun _ _ => ?_
  exact (allBooleans_refusesIff operator args).map fun _ _ => rfl

/-! ### Comparison -/

/-- Two numbers or two strings. -/
def Comparable (v w : Value) : Prop :=
  v.kind = .number ∧ w.kind = .number ∨ v.kind = .string ∧ w.kind = .string

/-- Are two numbers or two strings in an order that passes the test? A NaN is in no order. -/
def InOrder (test : Ordering → Bool) : Value → Value → Prop
  | .num a, .num b => a.isNaN = false ∧ b.isNaN = false ∧ test (a.cmp b) = true
  | .str s, .str t => test (compare s t) = true
  | _, _ => False

/-- Some two neighbours cannot be compared, and all neighbours in front of them are related. -/
def Stumbles (related : Value → Value → Prop) (args : List Value) : Prop :=
  ∃ before v w after, args = before ++ v :: w :: after ∧ ¬Comparable v w ∧
    (before ++ [v]).IsChain related

theorem not_stumbles_of_short {related : Value → Value → Prop} {args : List Value}
    (h : args.length < 2) : ¬Stumbles related args := by
  rintro ⟨before, v, w, after, rfl, -⟩
  simp at h
  omega

theorem head?_of_eq_append {v w : Value} {rest before after : List Value}
    (h : w :: rest = before ++ v :: after) : (before ++ [v]).head? = some w := by
  cases before with
  | nil =>
    obtain ⟨rfl, -⟩ := List.cons.inj h
    rfl
  | cons u before =>
    obtain ⟨rfl, -⟩ := List.cons.inj h
    rfl

/-- Either the first two cannot be compared, or they are related and the search goes on behind the
    first. -/
theorem stumbles_cons_cons {related : Value → Value → Prop} {v w : Value} {rest : List Value} :
    Stumbles related (v :: w :: rest) ↔
      ¬Comparable v w ∨ related v w ∧ Stumbles related (w :: rest) := by
  constructor
  · rintro ⟨before, v', w', after, hargs, hnot, hchain⟩
    cases before with
    | nil =>
      cases hargs
      exact .inl hnot
    | cons u before =>
      obtain ⟨rfl, hrest⟩ := List.cons.inj hargs
      obtain ⟨hfirst, hothers⟩ := List.isChain_cons.mp hchain
      exact .inr ⟨hfirst w (head?_of_eq_append hrest), before, v', w', after, hrest, hnot, hothers⟩
  · rintro (hnot | ⟨hrelated, before, v', w', after, hrest, hnot, hchain⟩)
    · exact ⟨[], v, w, rest, rfl, hnot, .singleton v⟩
    · refine ⟨v :: before, v', w', after, congrArg (v :: ·) hrest, hnot, ?_⟩
      refine List.isChain_cons.mpr ⟨fun u hu => ?_, hchain⟩
      obtain rfl := Option.some.inj ((head?_of_eq_append hrest).symm.trans hu)
      exact hrelated

theorem comparable_iff {v w : Value} : Comparable v w ↔
    (∃ a b, v = .num a ∧ w = .num b) ∨ ∃ s t, v = .str s ∧ w = .str t := by
  cases v <;> cases w <;> simp [Comparable, Value.kind]

theorem order_of_not_comparable (operator : String) {v w : Value} (h : ¬Comparable v w) :
    order operator v w = .error ⟨operator, .incomparable v.kind w.kind⟩ := by
  unfold order
  split
  · exact absurd (.inl ⟨rfl, rfl⟩) h
  · exact absurd (.inr ⟨rfl, rfl⟩) h
  · rfl

theorem order_refusesIff (operator : String) (test : Ordering → Bool) (v w : Value) :
    RefusesIff operator (¬Comparable v w)
      (fun c => InOrder test v w ↔ isNaN v = false ∧ isNaN w = false ∧ test c = true)
      (order operator v w) := by
  by_cases h : Comparable v w
  · obtain ⟨a, b, rfl, rfl⟩ | ⟨s, t, rfl, rfl⟩ := comparable_iff.mp h
    · exact .ok (not_not.mpr h) Iff.rfl
    · exact .ok (not_not.mpr h) (by simp [InOrder, isNaN])
  · rw [order_of_not_comparable operator h]
    exact .error h _

theorem chain_refusesIff (operator : String) (test : Ordering → Bool) : ∀ args : List Value,
    RefusesIff operator (Stumbles (InOrder test) args) (fun _ => True) (chain operator test args)
  | [] => .ok (not_stumbles_of_short (by simp)) trivial
  | [_] => .ok (not_stumbles_of_short (by simp)) trivial
  | v :: w :: rest => by
    have ih := chain_refusesIff operator test (w :: rest)
    refine RefusesIff.congr ((order_refusesIff operator test v w).bind fun c hc => ?_)
      stumbles_cons_cons.symm
    split
    · -- out of order: what follows is not looked at
      next hstop => exact .ok (by grind) trivial
    · next hgo => exact ih.congr (by grind)

theorem comparison_refusesIff (operator : String) (test : Ordering → Bool) (args : List Value) :
    RefusesIff operator (args.length < 2 ∨ Stumbles (InOrder test) args)
      (fun v => v.kind = .boolean) (comparison operator test args) := by
  refine (atLeastTwo_refusesIff operator args).bind fun _ _ => ?_
  exact (chain_refusesIff operator test args).map fun _ _ => rfl

/-! ### Questions with a fixed number of arguments, and equality -/

theorem negation_refusesIff (args : List Value) :
    RefusesIff "not" (args.length ≠ 1) (fun v => v.kind = .boolean) (negation args) := by
  rcases args with _ | ⟨v, _ | ⟨w, rest⟩⟩
  · exact .error (by simp) _
  · exact .ok (by simp) rfl
  · exact .error (by simp) _

theorem allEqual_refusesIff (args : List Value) :
    RefusesIff "=" (args.length < 2) (fun v => v.kind = .boolean) (allEqual args) := by
  rcases args with _ | ⟨v, _ | ⟨w, rest⟩⟩
  · exact .error (by simp) _
  · exact .error (by simp) _
  · exact .ok (by simp) rfl

theorem different_refusesIff (args : List Value) :
    RefusesIff "!=" (args.length ≠ 2) (fun v => v.kind = .boolean) (different args) := by
  rcases args with _ | ⟨v, _ | ⟨w, _ | ⟨x, rest⟩⟩⟩
  · exact .error (by simp) _
  · exact .error (by simp) _
  · exact .ok (by simp) rfl
  · exact .error (by simp) _

/-! ### The table -/

/-- When a primitive has no answer for its arguments. -/
def Refuses : Primitive → List Value → Prop
  | .add, args => args.length < 2 ∨ ∃ v ∈ args, v.kind ≠ sumKind args
  | .sub, args | .mul, args => args.length < 2 ∨ ∃ v ∈ args, v.kind ≠ .number
  | .div, args => (args.length < 2 ∨ ∃ v ∈ args, v.kind ≠ .number) ∨ ∃ v ∈ args.tail, IsZero v
  | .floor, args | .mod, args =>
    args.length ≠ 2 ∨ (∃ v ∈ args, v.kind ≠ .number) ∨ ∃ v ∈ args.tail, IsZero v
  | .and, args | .or, args => args.length < 2 ∨ ∃ v ∈ args, v.kind ≠ .boolean
  | .not, args => args.length ≠ 1
  | .equal, args => args.length < 2
  | .notEqual, args => args.length ≠ 2
  | .less, args => args.length < 2 ∨ Stumbles (InOrder Ordering.isLT) args
  | .lessEqual, args => args.length < 2 ∨ Stumbles (InOrder Ordering.isLE) args
  | .greater, args => args.length < 2 ∨ Stumbles (InOrder Ordering.isGT) args
  | .greaterEqual, args => args.length < 2 ∨ Stumbles (InOrder Ordering.isGE) args

/-- The kind of a primitive's answers. -/
def resultKind : Primitive → List Value → Kind
  | .add, args => sumKind args
  | .sub, _ | .mul, _ | .div, _ | .floor, _ | .mod, _ => .number
  | _, _ => .boolean

/-- The operator that each primitive passes on is the name it is bound to. -/
theorem apply_refusesIff (p : Primitive) (args : List Value) :
    RefusesIff p.name (p.Refuses args) (fun v => v.kind = p.resultKind args) (p.apply args) := by
  cases p with
  | add => exact addition_refusesIff args
  | sub | mul => exact arithmetic_refusesIff _ _ args
  | div => exact divide_refusesIff args
  | floor | mod => exact (floorDivide_refusesIff _ args).map fun _ _ => rfl
  | and | or => exact logical_refusesIff _ _ args
  | not => exact negation_refusesIff args
  | equal => exact allEqual_refusesIff args
  | notEqual => exact different_refusesIff args
  | less | lessEqual | greater | greaterEqual => exact comparison_refusesIff _ _ args

theorem operator_of_apply_error {p : Primitive} {args : List Value} {e : PrimitiveError}
    (h : p.apply args = .error e) : e.operator = p.name := by
  have hjudged := apply_refusesIff p args
  rw [h] at hjudged
  cases hjudged with
  | error => rfl

/-- Every primitive of the table either answers, with a value of its kind, or fails under its own
    name, and it fails just when it refuses its arguments. -/
theorem primitive_fails_iff_refuses (p : Primitive) (args : List Value) (s : Store) :
    Table.primitives.get? p.name = some (.prim p) ∧
      ((∃ v, Eval.call (.prim p) args s = (.ok (.value v), s) ∧ ¬p.Refuses args ∧
          v.kind = p.resultKind args) ∨
        ∃ fault, Eval.call (.prim p) args s = (.error (.primitive p.name fault), s) ∧
          p.Refuses args) := by
  refine ⟨Table.get?_primitives p, ?_⟩
  have hjudged := apply_refusesIff p args
  simp only [Eval.call]
  cases hresult : p.apply args with
  | ok v =>
    rw [hresult] at hjudged
    cases hjudged with
    | ok hnot hkind => exact .inl ⟨v, rfl, hnot, hkind⟩
  | error e =>
    rw [hresult] at hjudged
    cases hjudged with
    | error hreason fault => exact .inr ⟨fault, rfl, hreason⟩

-- A chain out of order does not stumble over what stands behind.
example : less.apply [.num (.ofInt 2), .num (.ofInt 1), .sym "a"] = .ok (.bool false) := by rfl

end FlatScheme.Primitive
