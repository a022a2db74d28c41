import FlatScheme.Primitive
import FlatScheme.Proofs.Number.Order
import Mathlib.Data.List.Perm.Basic

/-!
Structural equality as a relation, and what `=` says of more than two values.

`Equals` has one rule for each way in which two values can be equal. It is symmetric, a value
equals itself if there is no NaN in it (`equal_self`), and it is transitive among values whose
numbers are apart (`Equals.trans`): no float among them equals two different integers. Values
without floats are always apart.

The primitive `=` compares every argument with the first. Whenever the numbers of the arguments
are apart that amounts to comparing every two of them, so the order of the arguments does not
matter. Otherwise it does, and arguments are equal two by two just when `=` accepts all their
orders.
-/

namespace FlatScheme

namespace Value

/-- When two values are equal. -/
inductive Equals : Value → Value → Prop
  | pair {a b a' b' : Value} (car : Equals a a') (cdr : Equals b b') : Equals (.pair a b) (.pair a' b')
  | num {m n : Number} (h : m.equal n = true) : Equals (.num m) (.num n)
  | str (s : String) : Equals (.str s) (.str s)
  | sym (x : String) : Equals (.sym x) (.sym x)
  | bool (b : Bool) : Equals (.bool b) (.bool b)
  | prim (p : Primitive) : Equals (.prim p) (.prim p)
  | broken (i : Nat) (x r y s : String) : Equals (.broken i x r) (.broken i y s)
  | closure (i : Nat) (c d : EnvId) (ps qs : List String) (b b' : Expr) :
      Equals (.closure i c ps b) (.closure i d qs b')
  | empty {v w : Value} (hv : v.isEmpty = true) (hw : w.isEmpty = true) : Equals v w

theorem equals_of_equal {v w : Value} (h : v.equal w = true) : v.Equals w := by
  fun_induction equal v w with
  | case1 w => exact .empty rfl h
  | case2 w => exact .empty rfl h
  | case3 a b a' b' iha ihb =>
    rw [Bool.and_eq_true] at h
    exact .pair (iha h.1) (ihb h.2)
  | case4 m n => exact .num h
  | case11 => cases h
  | _ =>
    obtain rfl := eq_of_beq h
    constructor

theorem Equals.equal {v w : Value} (h : v.Equals w) : v.equal w = true := by
  induction h with
  | @empty v w hv hw =>
    cases v with
    | nil | emptyPair => simpa [Value.equal] using hw
    | _ => cases hv
  | pair _ _ iha ihb => simp [Value.equal, iha, ihb]
  | num h => simpa [Value.equal] using h
  | _ => simp [Value.equal]

theorem equal_iff {v w : Value} : v.equal w = true ↔ v.Equals w := ⟨equals_of_equal, Equals.equal⟩

/-! ### The laws of equality -/

theorem Equals.symm {v w : Value} (h : v.Equals w) : w.Equals v := by
  induction h with
  | empty hv hw => exact .empty hw hv
  | pair _ _ iha ihb => exact .pair iha ihb
  | num h => exact .num (by rwa [Number.equal_comm])
  | _ => constructor

/-- The numbers in the pairs of a value. -/
def numbers : Value → List Number
  | .num n => [n]
  | .pair a b => a.numbers ++ b.numbers
  | _ => []

/-- A value equals itself unless there is a NaN in it. -/
theorem equal_self (v : Value) : v.equal v = true ↔ ∀ n ∈ v.numbers, n.isNaN = false := by
  induction v using numbers.induct with
  | case1 n => simp [Value.equal, numbers, Number.equal_self]
  | case2 a b iha ihb => simp [Value.equal, numbers, iha, ihb, or_imp, forall_and]
  | case3 v hnum hpair => cases v <;> simp_all [Value.equal, numbers, isEmpty]

/-- Equality is transitive among values whose numbers are apart. -/
theorem Equals.trans {ns : List Number} (hns : Number.Apart ns) {u v w : Value} (h : u.Equals v)
    (hvw : v.Equals w) (hu : u.numbers ⊆ ns) (hv : v.numbers ⊆ ns) (hw : w.numbers ⊆ ns) :
    u.Equals w := by
  induction h generalizing w with
  | empty hnone hmid =>
    cases hvw with
    | empty _ hw => exact .empty hnone hw
    | _ => cases hmid
  | pair _ _ iha ihb =>
    cases hvw with
    | empty hv => cases hv
    | pair car cdr =>
      simp only [numbers, List.append_subset] at hu hv hw
      exact .pair (iha car hu.1 hv.1 hw.1) (ihb cdr hu.2 hv.2 hw.2)
  | num h =>
    cases hvw with
    | empty hv => cases hv
    | num h' =>
      simp only [numbers, List.cons_subset, List.nil_subset, and_true] at hu hv hw
      exact .num (Number.equal_trans hns hu hv hw h h')
  | _ =>
    cases hvw with
    | empty hv => cases hv
    | _ => constructor

theorem equal_comm (v w : Value) : v.equal w = w.equal v := by
  rw [Bool.eq_iff_iff, equal_iff, equal_iff]
  exact ⟨Equals.symm, Equals.symm⟩

/-- All numbers in the pairs of the value are integers, of either form. -/
def Integral (v : Value) : Prop := ∀ n ∈ v.numbers, ∃ m wide, n = .int m wide

/-- Without floats there is nothing that different integers could be rounded to. -/
theorem Equals.trans_of_integral {u v w : Value} (hu : u.Integral) (hv : v.Integral)
    (hw : w.Integral) (huv : u.Equals v) (hvw : v.Equals w) : u.Equals w := by
  have hints : ∀ n ∈ u.numbers ++ (v.numbers ++ w.numbers), ∃ m wide, n = .int m wide := by
    simp only [List.forall_mem_append]
    exact ⟨hu, hv, hw⟩
  have hapart : Number.Apart (u.numbers ++ (v.numbers ++ w.numbers)) := by
    intro x m v n w hx
    obtain ⟨_, _, hfloat⟩ := hints _ hx
    cases hfloat
  exact huv.trans hapart hvw (by simp) (by simp) (by simp)

/-- Equality is symmetric, a value equals itself just if there is no NaN in it, and equality is
    transitive on values all of whose numbers are integers. -/
theorem equality_laws (u v w : Value) :
    v.equal w = w.equal v ∧
      (v.equal v = true ↔ ∀ n ∈ v.numbers, n.isNaN = false) ∧
      (u.Integral → v.Integral → w.Integral → u.equal v = true → v.equal w = true →
        u.equal w = true) := by
  refine ⟨equal_comm v w, equal_self v, ?_⟩
  intro hu hv hw huv hvw
  exact (Equals.trans_of_integral hu hv hw (equals_of_equal huv) (equals_of_equal hvw)).equal

/-- Lists of a wide integer and of the same integer in the ordinary way, which end in different
    empty lists. -/
theorem wide_and_ordinary_lists_equal :
    (pair (.num (.int 2 true)) .nil).Integral ∧ (pair (.num (.ofInt 2)) .emptyPair).Integral ∧
      (pair (.num (.ofInt 2)) .nil).Integral ∧
      (pair (.num (.int 2 true)) .nil).equal (.pair (.num (.ofInt 2)) .emptyPair) = true ∧
      (pair (.num (.ofInt 2)) .emptyPair).equal (.pair (.num (.ofInt 2)) .nil) = true ∧
      (pair (.num (.int 2 true)) .nil).equal (.pair (.num (.ofInt 2)) .nil) = true := by
  have hu : (pair (.num (.int 2 true)) .nil).Integral := by simp [Integral, numbers]
  have hv : (pair (.num (.ofInt 2)) .emptyPair).Integral := by
    simp [Integral, numbers, Number.ofInt]
  have hw : (pair (.num (.ofInt 2)) .nil).Integral := by simp [Integral, numbers, Number.ofInt]
  have huv : (pair (.num (.int 2 true)) .nil).equal (.pair (.num (.ofInt 2)) .emptyPair) = true := by
    decide
  have hvw : (pair (.num (.ofInt 2)) .emptyPair).equal (.pair (.num (.ofInt 2)) .nil) = true := by
    decide
  exact ⟨hu, hv, hw, huv, hvw, (equality_laws _ _ _).2.2 hu hv hw huv hvw⟩

/-- Every two of the values are equal. -/
def AllEqual (vs : List Value) : Prop := ∀ v ∈ vs, ∀ w ∈ vs, v.equal w = true

instance (vs : List Value) : Decidable (AllEqual vs) :=
  inferInstanceAs (Decidable (∀ v ∈ vs, ∀ w ∈ vs, v.equal w = true))

theorem allEqual_perm {vs ws : List Value} (h : vs.Perm ws) : AllEqual vs ↔ AllEqual ws := by
  simp only [AllEqual, h.mem_iff]

/-- There is no NaN in any of the values. -/
def NaNFree (vs : List Value) : Prop := ∀ v ∈ vs, ∀ n ∈ v.numbers, n.isNaN = false

/-- To compare every value with one of them is enough if their numbers are apart. -/
theorem allEqual_cons_iff {v : Value} {rest : List Value} (hnan : NaNFree (v :: rest))
    (hapart : Number.Apart ((v :: rest).flatMap numbers)) :
    AllEqual (v :: rest) ↔ ∀ w ∈ rest, v.equal w = true := by
  refine ⟨fun h w hw => h v List.mem_cons_self w (List.mem_cons_of_mem v hw), fun h => ?_⟩
  have hfirst : ∀ w ∈ v :: rest, v.Equals w := by
    intro w hw
    rcases List.mem_cons.mp hw with rfl | hw
    · exact equal_iff.mp ((equal_self w).mpr (hnan w List.mem_cons_self))
    · exact equal_iff.mp (h w hw)
  have hnumbers : ∀ w ∈ v :: rest, w.numbers ⊆ (v :: rest).flatMap numbers :=
    fun w hw n hn => List.mem_flatMap.mpr ⟨w, hw, hn⟩
  intro u hu w hw
  rw [equal_iff]
  exact (hfirst u hu).symm.trans hapart (hfirst w hw) (hnumbers u hu)
    (hnumbers v List.mem_cons_self) (hnumbers w hw)

end Value

namespace Primitive

open Value (AllEqual NaNFree allEqual_perm allEqual_cons_iff equal_self)

/-! ### The primitive `=` -/

theorem apply_equal_cons {v : Value} {rest : List Value} (h : rest ≠ []) :
    equal.apply (v :: rest) = .ok (.bool (rest.all v.equal)) := by
  cases rest with
  | nil => exact absurd rfl h
  | cons w rest => rfl

theorem apply_equal_eq_true {v : Value} {rest : List Value} (h : rest ≠ []) :
    equal.apply (v :: rest) = .ok (.bool true) ↔ ∀ w ∈ rest, v.equal w = true := by
  simp [apply_equal_cons h]

theorem exists_cons_of_two_le {args : List Value} (h : 2 ≤ args.length) :
    ∃ v rest, args = v :: rest ∧ rest ≠ [] := by
  rcases args with _ | ⟨v, _ | ⟨w, rest⟩⟩
  · simp at h
  · simp at h
  · exact ⟨v, w :: rest, rfl, List.cons_ne_nil w rest⟩

/-- If the numbers of the arguments are apart, `=` tells whether every two arguments are equal. -/
theorem apply_equal_of_apart {args : List Value} (htwo : 2 ≤ args.length) (hnan : NaNFree args)
    (hapart : Number.Apart (args.flatMap Value.numbers)) :
    equal.apply args = .ok (.bool (decide (AllEqual args))) := by
  obtain ⟨v, rest, rfl, hrest⟩ := exists_cons_of_two_le htwo
  have hall : rest.all v.equal = decide (AllEqual (v :: rest)) := by
    rw [Bool.eq_iff_iff, List.all_eq_true, decide_eq_true_iff, allEqual_cons_iff hnan hapart]
  rw [apply_equal_cons hrest, hall]

/-- If every order of the arguments is accepted, each of them has been the first to be compared. -/
theorem allEqual_of_every_order {args : List Value} (htwo : 2 ≤ args.length) (hnan : NaNFree args)
    (h : ∀ args', args'.Perm args → equal.apply args' = .ok (.bool true)) : AllEqual args := by
  intro v hv w hw
  obtain ⟨s, t, rfl⟩ := List.append_of_mem hv
  have hothers : s ++ t ≠ [] := by
    rintro hnil
    obtain ⟨rfl, rfl⟩ := List.append_eq_nil_iff.mp hnil
    simp at htwo
  have hfirst := (apply_equal_eq_true hothers).mp (h _ List.perm_middle.symm)
  rcases List.mem_cons.mp (List.perm_middle.mem_iff.mp hw) with rfl | hw
  · exact (equal_self w).mpr (hnan w hv)
  · exact hfirst w hw

/-- What `=` says of two or more arguments without a NaN. Every two of them are equal just when `=`
    is true of them in every order. If no float among their numbers equals two different integers
    among them, then `=` gives the same answer for every order: whether every two are equal. -/
theorem equal_says_pairwise {args : List Value} (htwo : 2 ≤ args.length) (hnan : NaNFree args) :
    (AllEqual args ↔ ∀ args', args'.Perm args → equal.apply args' = .ok (.bool true)) ∧
      (Number.Apart (args.flatMap Value.numbers) → ∀ args', args'.Perm args →
        equal.apply args' = .ok (.bool (decide (AllEqual args)))) := by
  refine ⟨⟨fun h args' hperm => ?_, allEqual_of_every_order htwo hnan⟩, fun hapart args' hperm => ?_⟩
  · obtain ⟨v, rest, rfl, hrest⟩ := exists_cons_of_two_le (hperm.length_eq ▸ htwo)
    rw [apply_equal_eq_true hrest]
    intro w hw
    exact (allEqual_perm hperm).mpr h v List.mem_cons_self w (List.mem_cons_of_mem v hw)
  · have hsame : decide (AllEqual args) = decide (AllEqual args') :=
      decide_eq_decide.mpr (allEqual_perm hperm).symm
    rw [hsame]
    refine apply_equal_of_apart (hperm.length_eq ▸ htwo) ?_ ?_
    · exact fun v hv => hnan v (hperm.mem_iff.mp hv)
    · simpa only [Number.Apart, (hperm.flatMap_right Value.numbers).mem_iff] using hapart

/-- Lists of an integer, one of them long, and of the float of that integer, behind which there are
    different empty lists. -/
def mixedLists : List Value :=
  [.pair (.num (.int 2 true)) .nil, .pair (.num (.float (.ofInt 2))) .emptyPair,
    .pair (.num (.ofInt 2)) .nil]

theorem mixedLists_equal_in_every_order : 2 ≤ mixedLists.length ∧ NaNFree mixedLists ∧
    Number.Apart (mixedLists.flatMap Value.numbers) ∧
    ∀ args', args'.Perm mixedLists → equal.apply args' = .ok (.bool true) := by
  have htwo : 2 ≤ mixedLists.length := by decide
  have hnan : NaNFree mixedLists := by
    simp [NaNFree, mixedLists, Value.numbers, Number.isNaN, Number.ofInt, Binary64.isNaN_ofInt]
  have hapart : Number.Apart (mixedLists.flatMap Value.numbers) := by
    have hints : ∀ n w, .int n w ∈ mixedLists.flatMap Value.numbers → n = 2 := by
      simp [mixedLists, Value.numbers, Number.ofInt]
    exact fun x m v n w _ hm hn _ _ => (hints m v hm).trans (hints n w hn).symm
  have hall : decide (AllEqual mixedLists) = true := by decide +kernel
  refine ⟨htwo, hnan, hapart, fun args' hperm => ?_⟩
  rw [(equal_says_pairwise htwo hnan).2 hapart args' hperm, hall]

/-- A float, the integer it is exactly, and the next integer, which rounds to the same float. -/
def neighbours : List Value :=
  [.num (.float (.ofInt 9007199254740992)), .num (.ofInt 9007199254740992),
    .num (.ofInt 9007199254740993)]

/-- `=` accepts arguments two of which are not equal, and refuses them in another order. -/
theorem neighbours_accepted_though_unequal : 2 ≤ neighbours.length ∧ NaNFree neighbours ∧
    equal.apply neighbours = .ok (.bool true) ∧ ¬AllEqual neighbours ∧
    equal.apply neighbours.reverse = .ok (.bool false) := by
  have hnan : NaNFree neighbours := by
    simp [NaNFree, neighbours, Value.numbers, Number.isNaN, Number.ofInt, Binary64.isNaN_ofInt]
  have haccepted : equal.apply neighbours = .ok (.bool true) :=
    (apply_equal_eq_true (List.cons_ne_nil _ _)).mpr (by decide +kernel)
  have hrefused : neighbours.reverse.tail.all (Value.num (.ofInt 9007199254740993)).equal = false := by
    decide +kernel
  refine ⟨by decide, hnan, haccepted, by decide +kernel, ?_⟩
  rw [← hrefused]
  exact apply_equal_cons (List.cons_ne_nil _ _)

end Primitive

end FlatScheme
