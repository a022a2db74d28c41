import FlatScheme.Proofs.Number.Form
import FlatScheme.Proofs.Primitive.Refusal
import Mathlib.Data.List.Forall2

/-!
What the primitives can tell apart.

A primitive asks of its arguments how many there are, of what kinds and truth values, which of them
are equal, and what strings, booleans and numbers are among them. `Indistinct N R` says that values
related by `R` answer all this alike, save that their numbers need only be related by `N`, which may
relate no more than the forms of an integer. Primitives then have the same faults with either
arguments and the same results, numbers up to `N` (`apply_concur`).
-/

namespace FlatScheme

/-- Values related by `R` look the same to the primitives, numbers up to `N`. -/
structure Indistinct (N : Number → Number → Prop) (R : Value → Value → Prop) : Prop where
  kind {v v' : Value} : R v v' → v.kind = v'.kind
  isTrue {v v' : Value} : R v v' → v.isTrue = v'.isTrue
  equal {v v' w w' : Value} : R v v' → R w w' → v.equal w = v'.equal w'
  str {s : String} {v' : Value} : R (.str s) v' → v' = .str s
  bool {b : Bool} {v' : Value} : R (.bool b) v' → v' = .bool b
  num {m : Number} {v' : Value} : R (.num m) v' → ∃ n, v' = .num n ∧ N m n

/-- Related values some of whose numbers are left out are still indistinct. -/
theorem Indistinct.restrict {N : Number → Number → Prop} {R : Value → Value → Prop}
    (h : Indistinct N R) (P : Number → Prop) :
    Indistinct (fun m n => P m ∧ N m n) (fun v v' => (∀ m, v = .num m → P m) ∧ R v v') where
  kind hv := h.kind hv.2
  isTrue hv := h.isTrue hv.2
  equal hv hw := h.equal hv.2 hw.2
  str hv := h.str hv.2
  bool hv := h.bool hv.2
  num {m v'} hv := by
    obtain ⟨n, rfl, hn⟩ := h.num hv.2
    exact ⟨n, rfl, hv.1 m rfl, hn⟩

/-- The same value, or two related numbers. -/
inductive Value.UpTo (N : Number → Number → Prop) : Value → Value → Prop
  | num {m n : Number} (h : N m n) : UpTo N (.num m) (.num n)
  | same (v : Value) : UpTo N v v

theorem Value.UpTo.mono {N N' : Number → Number → Prop} {v w : Value} (h : v.UpTo N w)
    (hN : ∀ m n, N m n → N' m n) : v.UpTo N' w := by
  cases h with
  | num h => exact .num (hN _ _ h)
  | same v => exact .same v

namespace Primitive

/-- The operation that a primitive combines all its numbers by. -/
def operation? : Primitive → Option (Number → Number → Number)
  | .add => some .add
  | .sub => some .sub
  | .mul => some .mul
  | _ => none

/-- Related numbers give related numbers. -/
def Respects (N : Number → Number → Prop) (f : Number → Number → Number) : Prop :=
  ∀ ⦃m m' : Number⦄, N m m' → ∀ ⦃n n' : Number⦄, N n n' → N (f m n) (f m' n')

/-! ### Results that concur -/

/-- Both results are the same error, or neither is an error and they are related. -/
inductive Concur {α : Type} (S : α → α → Prop) :
    Except PrimitiveError α → Except PrimitiveError α → Prop
  | ok {a a' : α} (h : S a a') : Concur S (.ok a) (.ok a')
  | error (e : PrimitiveError) : Concur S (.error e) (.error e)

namespace Concur

variable {α β : Type} {S : α → α → Prop} {T : β → β → Prop} {m m' : Except PrimitiveError α}

theorem of_eq (hS : ∀ a, S a a) (h : m = m') : Concur S m m' := by
  subst h
  cases m with
  | ok a => exact .ok (hS a)
  | error e => exact .error e

theorem eq (hS : ∀ a a', S a a' → a = a') (h : Concur S m m') : m = m' := by
  cases h with
  | ok h => rw [hS _ _ h]
  | error e => rfl

theorem mono {S' : α → α → Prop} (h : Concur S m m') (hS : ∀ a a', S a a' → S' a a') :
    Concur S' m m' := by
  cases h with
  | ok h => exact .ok (hS _ _ h)
  | error e => exact .error e

theorem bind {k k' : α → Except PrimitiveError β} (h : Concur S m m')
    (hk : ∀ a a', S a a' → Concur T (k a) (k' a')) : Concur T (m >>= k) (m' >>= k') := by
  cases h with
  | ok h => exact hk _ _ h
  | error e => exact .error e

theorem map {f f' : α → β} (h : Concur S m m') (hf : ∀ a a', S a a' → T (f a) (f' a')) :
    Concur T (m.map f) (m'.map f') := by
  cases h with
  | ok h => exact .ok (hf _ _ h)
  | error e => exact .error e

end Concur

section

variable {N : Number → Number → Prop} {R : Value → Value → Prop} (hR : Indistinct N R)
  {operator : String} {v v' w w' : Value} {vs vs' : List Value}

include hR

/-! ### Counting and sorting the arguments -/

omit hR in
theorem atLeastTwo_congr (h : List.Forall₂ R vs vs') :
    atLeastTwo operator vs = atLeastTwo operator vs' := by
  rw [atLeastTwo, atLeastTwo, h.length_eq]

/-- A function that takes the arguments of one kind, and whose error tells the kind of the first that
    is of another. -/
theorem concur_of_kind {α : Type} {S : α → α → Prop} (wrap : α → Value) (kind : Kind)
    (error : Kind → PrimitiveError) {f : List Value → Except PrimitiveError (List α)}
    (hkind : ∀ v, v.kind = kind → ∃ a, v = wrap a) (hnil : f [] = .ok [])
    (hcons : ∀ a rest, f (wrap a :: rest) = (f rest).map (a :: ·))
    (hother : ∀ v rest, v.kind ≠ kind → f (v :: rest) = .error (error v.kind))
    (hwrap : ∀ a v', R (wrap a) v' → ∃ a', v' = wrap a' ∧ S a a') (h : List.Forall₂ R vs vs') :
    Concur (List.Forall₂ S) (f vs) (f vs') := by
  induction h with
  | nil =>
    rw [hnil]
    exact .ok .nil
  | @cons v v' rest rest' hv _ ih =>
    by_cases hk : v.kind = kind
    · obtain ⟨a, rfl⟩ := hkind v hk
      obtain ⟨a', rfl, ha⟩ := hwrap a v' hv
      rw [hcons, hcons]
      exact ih.map fun as as' has => .cons ha has
    · rw [hother v rest hk, hother v' rest' (hR.kind hv ▸ hk), hR.kind hv]
      exact .error _

omit hR in
theorem kind_eq_number_iff : v.kind = .number ↔ ∃ n, v = .num n := by
  cases v <;> simp [Value.kind]

theorem allNumbers_concur (h : List.Forall₂ R vs vs') :
    Concur (List.Forall₂ N) (allNumbers operator vs) (allNumbers operator vs') := by
  refine concur_of_kind hR Value.num .number (⟨operator, .operand ·⟩)
    (fun v hv => kind_eq_number_iff.mp hv) rfl (fun _ _ => rfl) (fun v rest hv => ?_)
    (fun _ _ => hR.num) h
  cases v <;> simp_all [Value.kind, allNumbers]

theorem allStrings_congr (h : List.Forall₂ R vs vs') : allStrings vs = allStrings vs' := by
  refine (concur_of_kind (S := Eq) hR Value.str .string (⟨"+", .concatenation ·⟩) (fun v hv => ?_)
    rfl (fun _ _ => rfl) (fun v rest hv => ?_) (fun s _ hs => ⟨s, hR.str hs, rfl⟩) h).eq ?_
  · cases v <;> simp_all [Value.kind]
  · cases v <;> simp_all [Value.kind, allStrings]
  · simp [List.forall₂_eq_eq_eq]

theorem allBooleans_congr (h : List.Forall₂ R vs vs') :
    allBooleans operator vs = allBooleans operator vs' := by
  refine (concur_of_kind (S := Eq) hR Value.bool .boolean (⟨operator, .operand ·⟩) (fun v hv => ?_)
    rfl (fun _ _ => rfl) (fun v rest hv => ?_) (fun b _ hb => ⟨b, hR.bool hb, rfl⟩) h).eq ?_
  · cases v <;> simp_all [Value.kind]
  · cases v <;> simp_all [Value.kind, allBooleans]
  · simp [List.forall₂_eq_eq_eq]

theorem numbers_concur (h : List.Forall₂ R vs vs') :
    Concur (List.Forall₂ N) (numbers operator vs) (numbers operator vs') := by
  refine Concur.bind (.of_eq (fun _ => rfl) (atLeastTwo_congr h)) fun _ _ _ => ?_
  exact allNumbers_concur hR h

theorem concatenate_congr (h : List.Forall₂ R vs vs') : concatenate vs = concatenate vs' := by
  rw [concatenate, concatenate, atLeastTwo_congr h, allStrings_congr hR h]

theorem logical_congr (f : List Bool → Bool) (h : List.Forall₂ R vs vs') :
    logical operator f vs = logical operator f vs' := by
  rw [logical, logical, atLeastTwo_congr h, allBooleans_congr hR h]

theorem negation_congr (h : List.Forall₂ R vs vs') : negation vs = negation vs' := by
  cases h with
  | nil => rfl
  | cons hv hvs =>
    cases hvs with
    | nil => rw [negation, negation, hR.isTrue hv]
    | cons _ hvs => simp only [negation, List.length_cons, hvs.length_eq]

/-! ### Equality -/

theorem all_equal_congr (hv : R v v') (h : List.Forall₂ R vs vs') :
    vs.all v.equal = vs'.all v'.equal := by
  induction h with
  | nil => rfl
  | cons hw _ ih => rw [List.all_cons, List.all_cons, hR.equal hv hw, ih]

theorem allEqual_congr (h : List.Forall₂ R vs vs') : allEqual vs = allEqual vs' := by
  cases h with
  | nil => rfl
  | cons hv hvs =>
    cases hvs with
    | nil => rfl
    | cons hw hvs => rw [allEqual, allEqual, all_equal_congr hR hv (.cons hw hvs)]

theorem different_congr (h : List.Forall₂ R vs vs') : different vs = different vs' := by
  cases h with
  | nil => rfl
  | cons hv hvs =>
    cases hvs with
    | nil => rfl
    | cons hw hvs =>
      cases hvs with
      | nil => rw [different, different, hR.equal hv hw]
      | cons _ hvs => simp only [different, List.length_cons, hvs.length_eq]

/-! ### Order -/

omit hR in
theorem isNaN_of_kind_ne (h : v.kind ≠ .number) : isNaN v = false := by
  cases v <;> simp_all [Value.kind, isNaN]

variable (hN : ∀ {m n : Number}, N m n → m.narrowed = n.narrowed)

include hN

theorem isNaN_congr (hv : R v v') : isNaN v = isNaN v' := by
  by_cases hk : v.kind = .number
  · obtain ⟨a, rfl⟩ := kind_eq_number_iff.mp hk
    obtain ⟨a', rfl, ha⟩ := hR.num hv
    rw [isNaN, isNaN, ← Number.isNaN_narrowed a, hN ha, Number.isNaN_narrowed]
  · rw [isNaN_of_kind_ne hk, isNaN_of_kind_ne (hR.kind hv ▸ hk)]

theorem order_congr (hv : R v v') (hw : R w w') : order operator v w = order operator v' w' := by
  by_cases h : Comparable v w
  · obtain ⟨a, b, rfl, rfl⟩ | ⟨s, t, rfl, rfl⟩ := comparable_iff.mp h
    · obtain ⟨a', rfl, ha⟩ := hR.num hv
      obtain ⟨b', rfl, hb⟩ := hR.num hw
      have hcmp : a.cmp b = a'.cmp b' := by
        rw [← Number.cmp_narrowed a b, hN ha, hN hb, Number.cmp_narrowed]
      rw [order, order, hcmp]
    · rw [hR.str hv, hR.str hw]
  · have h' : ¬Comparable v' w' := by rwa [Comparable, ← hR.kind hv, ← hR.kind hw]
    rw [order_of_not_comparable operator h, order_of_not_comparable operator h', hR.kind hv,
      hR.kind hw]

theorem chain_congr (test : Ordering → Bool) (h : List.Forall₂ R vs vs') :
    chain operator test vs = chain operator test vs' := by
  induction h with
  | nil => rfl
  | cons hv hvs ih =>
    cases hvs with
    | nil => rfl
    | cons hw hvs =>
      rw [chain, chain, order_congr hR hN hv hw, isNaN_congr hR hN hv, isNaN_congr hR hN hw, ih]

theorem comparison_congr (test : Ordering → Bool) (h : List.Forall₂ R vs vs') :
    comparison operator test vs = comparison operator test vs' := by
  rw [comparison, comparison, atLeastTwo_congr h, chain_congr hR hN test h]

/-! ### Arithmetic -/

omit hN in
theorem arithmetic_concur {f : Number → Number → Number} (hf : Respects N f)
    (h : List.Forall₂ R vs vs') :
    Concur (Value.UpTo N) (arithmetic operator f vs) (arithmetic operator f vs') := by
  refine (numbers_concur hR h).bind fun ns ns' hns => .ok ?_
  cases hns with
  | nil => exact .same _
  | cons hn hrest => exact .num (List.rel_foldl hf hn hrest)

omit hR hN in
theorem addition_of_kind_ne {rest : List Value} (h : v.kind ≠ .string) :
    addition (v :: rest) = arithmetic "+" .add (v :: rest) := by
  cases v <;> simp_all [Value.kind, addition]

omit hN in
theorem addition_concur (hf : Respects N Number.add) (h : List.Forall₂ R vs vs') :
    Concur (Value.UpTo N) (addition vs) (addition vs') := by
  cases h with
  | nil => exact arithmetic_concur hR hf .nil
  | @cons v v' rest rest' hv hrest =>
    by_cases hk : v.kind = .string
    · obtain ⟨s, rfl⟩ : ∃ s, v = .str s := by cases v <;> simp_all [Value.kind]
      obtain rfl := hR.str hv
      exact .of_eq .same (concatenate_congr hR (.cons hv hrest))
    · rw [addition_of_kind_ne hk, addition_of_kind_ne (hR.kind hv ▸ hk)]
      exact arithmetic_concur hR hf (.cons hv hrest)

omit hR in
theorem divideBy_concur {q q' : Number} {ds ds' : List Number}
    (hq : Value.UpTo N (.num q) (.num q')) (h : List.Forall₂ N ds ds') :
    Concur (fun m n => Value.UpTo N (.num m) (.num n)) (divideBy q ds) (divideBy q' ds') := by
  induction h generalizing q q' with
  | nil => exact .ok hq
  | @cons d d' rest rest' hd _ ih =>
    have hnarrowed : q.narrowed = q'.narrowed := by
      cases hq with
      | num hq => exact hN hq
      | same => rfl
    have hdiv : q.div d = q'.div d' := by
      rw [← Number.div_narrowed q d, hnarrowed, hN hd, Number.div_narrowed]
    rw [divideBy, divideBy, Number.isZero_congr (hN hd), hdiv]
    split
    · exact .error _
    · exact ih (.same _)

theorem divide_concur (h : List.Forall₂ R vs vs') :
    Concur (Value.UpTo N) (divide vs) (divide vs') := by
  refine (numbers_concur hR h).bind fun ns ns' hns => ?_
  cases hns with
  | nil => exact .ok (.same _)
  | cons hn hrest => exact (divideBy_concur hN (.num hn) hrest).bind fun _ _ hm => .ok hm

theorem floorDivide_congr (h : List.Forall₂ R vs vs') :
    floorDivide operator vs = floorDivide operator vs' := by
  refine Concur.eq (S := Eq) (fun _ _ => id) ((numbers_concur hR h).bind fun ns ns' hns => ?_)
  rcases hns with _ | ⟨hx, _ | ⟨hy, _ | ⟨_, hrest⟩⟩⟩
  · exact .error _
  · exact .error _
  · next x x' y y' =>
    have hdivision : x.floorQuoRem y = x'.floorQuoRem y' := by
      rw [← Number.floorQuoRem_narrowed x y, hN hx, hN hy, Number.floorQuoRem_narrowed]
    dsimp only
    rw [Number.isZero_congr (hN hy), hdivision]
    exact .of_eq (fun _ => rfl) rfl
  · simp only [List.length_cons, hrest.length_eq]
    exact .error _

/-! ### The table -/

/-- Primitives have the same errors with arguments that look the same to them, and the same results,
    numbers being related if the primitive's operation respects that. -/
theorem apply_concur (p : Primitive) (hf : ∀ f, p.operation? = some f → Respects N f)
    (h : List.Forall₂ R vs vs') : Concur (Value.UpTo N) (p.apply vs) (p.apply vs') := by
  cases p with
  | add => exact addition_concur hR (hf _ rfl) h
  | sub | mul => exact arithmetic_concur hR (hf _ rfl) h
  | div => exact divide_concur hR hN h
  | floor | mod =>
    refine .of_eq .same ?_
    rw [apply, apply, floorDivide_congr hR hN h]
  | and | or => exact .of_eq .same (logical_congr hR _ h)
  | not => exact .of_eq .same (negation_congr hR h)
  | equal => exact .of_eq .same (allEqual_congr hR h)
  | notEqual => exact .of_eq .same (different_congr hR h)
  | less | lessEqual | greater | greaterEqual => exact .of_eq .same (comparison_congr hR hN _ h)

end

/-- Where the numbers are the same as well, so are the results. -/
theorem apply_congr {R : Value → Value → Prop} (hR : Indistinct Eq R) (p : Primitive)
    {vs vs' : List Value} (h : List.Forall₂ R vs vs') : p.apply vs = p.apply vs' := by
  have hresults : Concur (Value.UpTo Eq) (p.apply vs) (p.apply vs') :=
    apply_concur hR (fun hn => congrArg Number.narrowed hn) p
      (fun f _ _ _ hm _ _ hn => congrArg₂ f hm hn) h
  refine hresults.eq ?_
  rintro _ _ (hn | _)
  · rw [hn]
  · rfl

end Primitive

end FlatScheme
