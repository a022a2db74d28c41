import FlatScheme.Primitive
import FlatScheme.Proofs.Number.Order
import Mathlib.Algebra.Order.Group.Unbundled.Int

/-!
Floor division of integers.

Division toward zero leaves a remainder with the sign of the dividend. One step down from there
gives the remainder the sign of the divisor, and is called for just when the two signs differ and
the division is not exact. What comes of it is the only quotient and remainder with a remainder
that is smaller than the divisor and has its sign, whatever the size and form of the integers.
-/

namespace FlatScheme

/-- `q` and `r` are the quotient and the remainder of `x` by `y`, the remainder being smaller than the
    divisor and of its sign. -/
structure IsFloorDivision (x y q r : Int) : Prop where
  sum : x = q * y + r
  small : |r| < |y|
  sign : r = 0 ∨ r.sign = y.sign

namespace IsFloorDivision

variable {x y q r q' r' : Int}

/-- A remainder lies from zero up to a positive divisor, or from zero down to a negative one. -/
theorem iff_bounds : IsFloorDivision x y q r ↔ x = q * y + r ∧ (0 ≤ r ∧ r < y ∨ y < r ∧ r ≤ 0) := by
  have hrange : |r| < |y| ∧ (r = 0 ∨ r.sign = y.sign) ↔ 0 ≤ r ∧ r < y ∨ y < r ∧ r ≤ 0 := by
    rcases lt_trichotomy y 0 with hy | rfl | hy
    · rw [Int.sign_eq_neg_one_of_neg hy, Int.sign_eq_neg_one_iff_neg, abs_of_neg hy, abs_lt]
      omega
    · simp only [abs_zero, not_lt.mpr (abs_nonneg r), false_and, false_iff]
      omega
    · rw [Int.sign_eq_one_of_pos hy, Int.sign_eq_one_iff_pos, abs_of_pos hy, abs_lt]
      omega
  rw [← hrange]
  exact ⟨fun h => ⟨h.sum, h.small, h.sign⟩, fun h => ⟨h.1, h.2.1, h.2.2⟩⟩

/-- There is only one such pair. -/
theorem unique (h : IsFloorDivision x y q r) (h' : IsFloorDivision x y q' r') : q' = q ∧ r' = r := by
  obtain ⟨hsum, hrange⟩ := iff_bounds.mp h
  obtain ⟨hsum', hrange'⟩ := iff_bounds.mp h'
  have hdiff : r' - r = y * (q - q') := by
    rw [Int.mul_sub, Int.mul_comm y, Int.mul_comm y]
    omega
  -- two remainders on the same side of zero are less than the divisor apart
  have hnear : (r' - r).natAbs < y.natAbs := by omega
  have hr : r' - r = 0 := Int.eq_zero_of_dvd_of_natAbs_lt_natAbs ⟨q - q', hdiff⟩ hnear
  have hq : q - q' = 0 := by
    rw [hr] at hdiff
    exact (Int.mul_eq_zero.mp hdiff.symm).resolve_left (by omega)
  omega

end IsFloorDivision

namespace Number

/-- Division toward zero, mended where the signs differ, is floor division. -/
theorem isFloorDivision_wholeQuoRem {a b : Int} (hb : b ≠ 0) :
    IsFloorDivision a b (wholeQuoRem a b).1 (wholeQuoRem a b).2 := by
  have hsum : a = a.tdiv b * b + a.tmod b := by
    rw [Int.mul_comm]
    exact (Int.mul_tdiv_add_tmod a b).symm
  have hsmall : (a.tmod b).natAbs < b.natAbs := by
    rw [Int.natAbs_tmod]
    exact Nat.mod_lt _ (Int.natAbs_pos.mpr hb)
  rw [IsFloorDivision.iff_bounds]
  by_cases hmend : a.tmod b ≠ 0 ∧ ¬(a.tmod b < 0 ↔ b < 0)
  · have hstep : wholeQuoRem a b = (a.tdiv b - 1, a.tmod b + b) := if_pos hmend
    rw [hstep]
    refine ⟨?_, by dsimp only; omega⟩
    rw [Int.sub_mul, Int.one_mul]
    omega
  · have hkeep : wholeQuoRem a b = (a.tdiv b, a.tmod b) := if_neg hmend
    rw [hkeep]
    exact ⟨hsum, by dsimp only; omega⟩

end Number

namespace Primitive

theorem floorDivide_int (operator : String) {x y : Int} (hy : y ≠ 0) (v w : Bool) :
    floorDivide operator [.num (.int x v), .num (.int y w)] =
      .ok (.ofInt (Number.wholeQuoRem x y).1, .ofInt (Number.wholeQuoRem x y).2) := by
  have hzero : (Number.int y w).isZero = false := by simpa [← Number.isZero_int y w] using hy
  have hnumbers : numbers operator [.num (.int x v), .num (.int y w)] =
      .ok [.int x v, .int y w] := rfl
  simp [floorDivide, hnumbers, bind, Except.bind, hzero, Number.floorQuoRem]

/-- `floor` and `mod` divide integers of any size and form: they give the one quotient and remainder
    whose remainder is smaller than the divisor and has its sign. -/
theorem floor_mod_floor_division (x y : Int) (v w : Bool) (hy : y ≠ 0) :
    ∃ q r : Int, floor.apply [.num (.int x v), .num (.int y w)] = .ok (.num (.ofInt q)) ∧
      mod.apply [.num (.int x v), .num (.int y w)] = .ok (.num (.ofInt r)) ∧
      IsFloorDivision x y q r ∧ ∀ q' r', IsFloorDivision x y q' r' → q' = q ∧ r' = r := by
  have hdivision := Number.isFloorDivision_wholeQuoRem (a := x) hy
  refine ⟨_, _, ?_, ?_, hdivision, fun q' r' h => hdivision.unique h⟩
  · simp only [apply, floorDivide_int _ hy]
    rfl
  · simp only [apply, floorDivide_int _ hy]
    rfl

/-- The least integer of 64 bits divided by minus one, which has no quotient of 64 bits. -/
theorem floor_mod_least_by_minus_one : (-1 : Int) ≠ 0 ∧
    floor.apply [.num (.ofInt (-9223372036854775808)), .num (.ofInt (-1))] =
      .ok (.num (.ofInt 9223372036854775808)) ∧
    mod.apply [.num (.ofInt (-9223372036854775808)), .num (.ofInt (-1))] = .ok (.num .zero) := by
  have hy : (-1 : Int) ≠ 0 := by decide
  obtain ⟨q, r, hfloor, hmod, -, honly⟩ :=
    floor_mod_floor_division (-9223372036854775808) (-1) false false hy
  obtain ⟨rfl, rfl⟩ := honly 9223372036854775808 0 ⟨by decide, by decide, .inl rfl⟩
  exact ⟨hy, hfloor, hmod⟩

end Primitive

end FlatScheme
