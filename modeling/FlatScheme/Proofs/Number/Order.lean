import FlatScheme.Proofs.Number.Rounding
import FlatScheme.Value.Equal

/-!
Zero, equality and order of numbers.

Two integers are compared as integers. Once a float takes part, both numbers are compared by their
places among the floats, the integer being rounded first. Equality is symmetric, and a number
equals itself unless it is a NaN. It is not transitive, since rounding takes different integers to
one float, which then equals both of them; `equal_trans` says that nothing else is in the way.

The strict order is transitive all the same. Rounding may bring two integers together, but it never
puts them in the opposite order, so the step that a float takes part in decides (`cmp_lt_trans`).
-/

namespace FlatScheme

namespace Binary64

theorem isNaN_ofInt (n : Int) : (ofInt n).isNaN = false := rfl

theorem cmp_eq_iff {x y : Binary64} (hx : x.isNaN = false) (hy : y.isNaN = false) :
    x.cmp y = .eq ↔ x.place = y.place := by
  simp [cmp, hx, hy]

theorem cmp_eq_lt_iff {x y : Binary64} :
    x.cmp y = .lt ↔ x.isNaN = false ∧ y.isNaN = false ∧ x.place < y.place := by
  by_cases hx : x.isNaN = true
  · simp [cmp, hx]
  by_cases hy : y.isNaN = true
  · simp [cmp, hy]
  simp [cmp, hx, hy, Std.compare_eq_lt]

theorem cmp_swap (x y : Binary64) : y.cmp x = (x.cmp y).swap := by
  unfold cmp
  rw [Bool.or_comm]
  split
  · rfl
  · exact Std.OrientedOrd.eq_swap

theorem place_ofInt_zero : (ofInt 0).place = 0 := by decide +kernel

/-- The two zeros are the only floats at place zero. -/
theorem place_eq_zero_iff {x : Binary64} (hx : x.isNaN = false) :
    x.place = 0 ↔ ∃ negative, x = zero negative := by
  cases x with
  | nan => cases hx
  | signed negative rank =>
    have hrank : rank.val = 0 ↔ rank = ⟨0, Nat.succ_pos _⟩ := by rw [Fin.ext_iff]
    cases negative <;> simp [place, zero, hrank]

theorem place_ofInt (n : Int) : (ofInt n).place =
    if n < 0 then -(roundRatio (n.natAbs * one) 1 : Int) else roundRatio (n.natAbs * one) 1 := by
  simp only [ofInt, ofRatio, place, decide_eq_true_eq]

/-- A larger integer is not rounded to a smaller float. -/
theorem place_ofInt_mono {m n : Int} (h : m ≤ n) : (ofInt m).place ≤ (ofInt n).place := by
  have hround {a b : Nat} (hab : a ≤ b) : roundRatio (a * one) 1 ≤ roundRatio (b * one) 1 :=
    roundRatio_mono Nat.one_pos (Nat.mul_le_mul_right one hab)
  rw [place_ofInt, place_ofInt]
  split <;> split
  · have hrank := hround (a := n.natAbs) (b := m.natAbs) (by omega)
    omega
  · omega
  · omega
  · have hrank := hround (a := m.natAbs) (b := n.natAbs) (by omega)
    omega

end Binary64

namespace Number

/-! ### Zero -/

theorem isZero_int (n : Int) (wide : Bool) : (int n wide).isZero = true ↔ n = 0 := by
  simp [isZero, isNaN, cmp, zero, ofInt]

theorem isZero_float (x : Binary64) : (float x).isZero = true ↔ ∃ negative, x = .zero negative := by
  by_cases hx : x.isNaN = true
  · have hne : ∀ negative, x ≠ .zero negative := by
      rintro negative rfl
      cases hx
    simp [isZero, isNaN, hx, hne]
  · rw [Bool.not_eq_true] at hx
    rw [← Binary64.place_eq_zero_iff hx, ← Binary64.place_ofInt_zero,
      ← Binary64.cmp_eq_iff hx (Binary64.isNaN_ofInt 0)]
    simp [isZero, isNaN, hx, cmp, zero, ofInt, toFloat]

/-- The zeros are the integer zero, in either form, and the float zeros of either sign. -/
theorem isZero_iff (n : Number) :
    n.isZero = true ↔ (∃ wide, n = .int 0 wide) ∨ ∃ negative, n = .float (.zero negative) := by
  cases n with
  | int m wide => simp [isZero_int]
  | float x => simp [isZero_float]

/-! ### Equality -/

theorem equal_int_int (m n : Int) (v w : Bool) : (int m v).equal (int n w) = true ↔ m = n := by
  simp [equal, isNaN, cmp]

theorem isNaN_toFloat (a : Number) : a.toFloat.isNaN = a.isNaN := by
  cases a <;> rfl

/-- Numbers that are compared as floats are equal at the same place. -/
theorem equal_of_cmp_toFloat {a b : Number} (h : a.cmp b = a.toFloat.cmp b.toFloat) :
    a.equal b = true ↔ a.isNaN = false ∧ b.isNaN = false ∧ a.toFloat.place = b.toFloat.place := by
  by_cases ha : a.isNaN = true
  · simp [equal, ha]
  by_cases hb : b.isNaN = true
  · simp [equal, hb]
  rw [Bool.not_eq_true] at ha hb
  have hplace := Binary64.cmp_eq_iff ((isNaN_toFloat a).trans ha) ((isNaN_toFloat b).trans hb)
  simp [equal, ha, hb, h, hplace]

theorem equal_int_float (m : Int) (w : Bool) (x : Binary64) :
    (int m w).equal (float x) = true ↔ x.isNaN = false ∧ (Binary64.ofInt m).place = x.place := by
  simp [equal_of_cmp_toFloat (a := .int m w) (b := .float x) rfl, toFloat, isNaN]

theorem equal_float_int (x : Binary64) (n : Int) (w : Bool) :
    (float x).equal (int n w) = true ↔ x.isNaN = false ∧ x.place = (Binary64.ofInt n).place := by
  simp [equal_of_cmp_toFloat (a := .float x) (b := .int n w) rfl, toFloat, isNaN]

theorem equal_float_float (x y : Binary64) : (float x).equal (float y) = true ↔
    x.isNaN = false ∧ y.isNaN = false ∧ x.place = y.place := by
  simp [equal_of_cmp_toFloat (a := .float x) (b := .float y) rfl, toFloat, isNaN]

theorem equal_comm (a b : Number) : a.equal b = b.equal a := by
  rw [Bool.eq_iff_iff]
  cases a <;> cases b <;>
    simp only [equal_int_int, equal_int_float, equal_float_int, equal_float_float] <;> grind

theorem equal_self (a : Number) : a.equal a = true ↔ a.isNaN = false := by
  cases a with
  | int n w => simp [equal_int_int, isNaN]
  | float x => simp [equal_float_float, isNaN]

/-- No float among the numbers equals two different integers among them. -/
def Apart (ns : List Number) : Prop :=
  ∀ x m v n w, .float x ∈ ns → .int m v ∈ ns → .int n w ∈ ns →
    (int m v).equal (float x) = true → (int n w).equal (float x) = true → m = n

/-- Equality is transitive, save from one integer to another by way of a float. -/
theorem equal_trans {ns : List Number} (hns : Apart ns) {a b c : Number} (ha : a ∈ ns) (hb : b ∈ ns)
    (hc : c ∈ ns) (hab : a.equal b = true) (hbc : b.equal c = true) : a.equal c = true := by
  cases a <;> cases b <;> cases c
  case int.float.int m v x n w =>
    rw [equal_comm] at hbc
    rw [equal_int_int]
    exact hns x m v n w hb ha hc hab hbc
  all_goals
    simp only [equal_int_int, equal_int_float, equal_float_int, equal_float_float] at *
    grind

/-! ### Order -/

theorem cmp_swap (a b : Number) : b.cmp a = (a.cmp b).swap := by
  cases a <;> cases b
  case int.int m _ n _ => exact Std.OrientedOrd.eq_swap
  all_goals exact Binary64.cmp_swap _ _

/-- The strict order is transitive. -/
theorem cmp_lt_trans {a b c : Number} (hab : a.cmp b = .lt) (hbc : b.cmp c = .lt) :
    a.cmp c = .lt := by
  cases a <;> cases b <;> cases c <;>
    simp only [cmp, toFloat, Std.compare_eq_lt, Binary64.cmp_eq_lt_iff] at *
  case int.int.int => omega
  case int.int.float l _ m _ z =>
    have hround := Binary64.place_ofInt_mono (Int.le_of_lt hab)
    grind [Binary64.isNaN_ofInt]
  case float.int.int x m _ n _ =>
    have hround := Binary64.place_ofInt_mono (Int.le_of_lt hbc)
    grind [Binary64.isNaN_ofInt]
  case int.float.int l _ y n _ =>
    by_contra hle
    have hround := Binary64.place_ofInt_mono (Int.not_lt.mp hle)
    omega
  all_goals grind

end Number

end FlatScheme
