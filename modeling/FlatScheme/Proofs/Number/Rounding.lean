import FlatScheme.Number.Binary64
import Mathlib.Algebra.Order.Field.Rat
import Mathlib.Data.Nat.Cast.Order.Field
import Mathlib.Order.Monotone.Basic
import Mathlib.Tactic.FieldSimp
import Mathlib.Tactic.Linarith
import Mathlib.Tactic.MkIffOfInductiveProp
import Mathlib.Tactic.Positivity
import Mathlib.Tactic.Ring

/-!
Rounding to the nearest rank, as a statement about rational numbers.

A rank splits into a significand `m` of at most 53 bits and a power of two `k`, and its magnitude is
`m * 2 ^ k` units. From one rank to the next the magnitude grows by `2 ^ k`, so magnitudes increase
with ranks, and the rationals fall into intervals around them: `Captures r q` says that `q` units
lie between the midpoints to the neighbours of rank `r`, the ends counting for even ranks alone. The
larger of two rationals is captured by the larger rank. `exists_captures_roundRatio` is the
specification of `roundRatio`: it finds the rank that captures the quotient, so there is no more than
one answer (`roundRatio_eq_of_captures`), and rounding keeps the order (`roundRatio_mono`).
-/

namespace FlatScheme.Binary64

/-! ### Ranks in parts -/

theorem units_of_lt {r : ℕ} (h : r < binade) : units r = r := by
  rw [units, significand, if_pos h, scale, Nat.div_eq_of_lt h]
  simp

/-- Within a power of two the magnitude is proportional to the rank. -/
theorem units_of_binade {r k : ℕ} (hlow : (k + 1) * binade ≤ r) (hhigh : r < (k + 2) * binade) :
    units r = (r - k * binade) * 2 ^ k := by
  have hscale : scale r = k := by
    simp only [scale, binade] at *
    omega
  have hsignificand : significand r = r - k * binade := by
    simp only [significand, binade] at *
    rw [if_neg (by omega)]
    omega
  rw [units, hscale, hsignificand]
  rfl

theorem units_of_parts {k m : ℕ} (hm : m ≤ 2 * binade) (hk : k = 0 ∨ binade ≤ m) :
    units (k * binade + m) = m * 2 ^ k := by
  rcases Nat.lt_or_ge m binade with hsmall | hlarge
  · -- only the lowest magnitudes have a short significand
    obtain rfl : k = 0 := by omega
    rw [Nat.zero_mul, Nat.zero_add, units_of_lt hsmall, pow_zero, Nat.mul_one]
  rcases Nat.lt_or_ge m (2 * binade) with hfull | hcarry
  · rw [units_of_binade (k := k) (by rw [Nat.add_mul]; omega) (by rw [Nat.add_mul]; omega),
      Nat.add_sub_cancel_left]
  · -- a carry out of the significand is the next power of two
    obtain rfl : m = 2 * binade := by omega
    rw [← Nat.add_mul, units_of_binade (k := k + 1) (Nat.le_refl _)
      (Nat.mul_lt_mul_of_pos_right (by omega) (by decide)), ← Nat.sub_mul, pow_succ]
    rw [show k + 2 - (k + 1) = 1 by omega]
    ring

theorem rank_eq_parts (r : ℕ) : r = scale r * binade + significand r := by
  simp only [scale, significand, binade]
  split <;> omega

theorem significand_lt (r : ℕ) : significand r < 2 * binade := by
  simp only [significand, binade]
  split <;> omega

theorem scale_eq_zero_or (r : ℕ) : scale r = 0 ∨ binade ≤ significand r := by
  simp only [scale, significand, binade]
  split <;> omega

theorem units_eq (r : ℕ) : units r = significand r * 2 ^ scale r := rfl

theorem units_succ (r : ℕ) : units (r + 1) = units r + 2 ^ scale r := by
  have hsucc : r + 1 = scale r * binade + (significand r + 1) := by
    conv_lhs => rw [rank_eq_parts r]
    rw [Nat.add_assoc]
  rw [hsucc, units_of_parts (significand_lt r) ((scale_eq_zero_or r).imp_right Nat.le_succ_of_le),
    Nat.succ_mul]
  rfl

theorem units_strictMono : StrictMono units :=
  strictMono_nat_of_lt_succ fun r => by
    rw [units_succ]
    exact Nat.lt_add_of_pos_right (by positivity)

theorem cast_units_lt_succ (r : ℕ) : (units r : ℚ) < units (r + 1) := by
  exact_mod_cast units_strictMono r.lt_succ_self

theorem units_zero : units 0 = 0 := rfl

/-- A step up to a rank is at least `2 ^ -53` of the magnitude reached. -/
theorem units_succ_le (r : ℕ) : units (r + 1) ≤ 2 * binade * 2 ^ scale r := by
  rw [units_succ, units_eq, ← Nat.succ_mul]
  exact Nat.mul_le_mul_right _ (significand_lt r)

theorem scale_mono {r s : ℕ} (h : r ≤ s) : scale r ≤ scale s :=
  Nat.sub_le_sub_right (Nat.div_le_div_right h) 1

-- The exponent is kept behind an equation, since `2 ^ 1074` written out is taken for a numeral.
theorem one_eq_two_pow {k : ℕ} (h : k = 1074) : one = 2 ^ k := by
  unfold one
  rw [← h, Nat.pow_eq]

theorem one_pos : 0 < one := by
  obtain ⟨k, hk⟩ : ∃ k, k = 1074 := ⟨_, rfl⟩
  rw [one_eq_two_pow hk]
  exact Nat.two_pow_pos k

/-! ### The interval of a rank -/

/-- Do `q` units lie among those nearest to rank `r`, half-way points going to the even rank? -/
@[mk_iff]
structure Captures (r : ℕ) (q : ℚ) : Prop where
  low : (units (r - 1) : ℚ) + units r ≤ 2 * q
  high : 2 * q ≤ (units r : ℚ) + units (r + 1)
  low_odd : r % 2 = 1 → (units (r - 1) : ℚ) + units r < 2 * q
  high_odd : r % 2 = 1 → 2 * q < (units r : ℚ) + units (r + 1)

theorem Captures.of_lt {r : ℕ} {q : ℚ} (hlow : (units (r - 1) : ℚ) + units r < 2 * q)
    (hhigh : 2 * q < (units r : ℚ) + units (r + 1)) : Captures r q :=
  ⟨hlow.le, hhigh.le, fun _ => hlow, fun _ => hhigh⟩

theorem Captures.lt_units_succ {r : ℕ} {q : ℚ} (h : Captures r q) : q < units (r + 1) := by
  linarith [h.high, cast_units_lt_succ r]

theorem Captures.units_pred_lt {r : ℕ} {q : ℚ} (h : Captures (r + 1) q) : (units r : ℚ) < q := by
  have hlow := h.low
  rw [Nat.add_sub_cancel] at hlow
  linarith [cast_units_lt_succ r]

/-- The larger of two rationals is captured by the larger rank. -/
theorem Captures.le_of_le {r s : ℕ} {p q : ℚ} (hr : Captures r p) (hs : Captures s q) (hle : p ≤ q) :
    r ≤ s := by
  rcases r with _ | r
  · exact Nat.zero_le s
  by_contra hlt
  have hsr : s ≤ r := by omega
  have hbelow : (units s : ℚ) ≤ units r := by exact_mod_cast units_strictMono.monotone hsr
  have hnext : (units (s + 1) : ℚ) ≤ units (r + 1) := by
    exact_mod_cast units_strictMono.monotone (Nat.succ_le_succ hsr)
  have hlow := hr.low
  rw [Nat.add_sub_cancel] at hlow
  -- both rationals lie half-way between rank `r` and the next, where only the even rank captures
  have hunits : (units s : ℚ) = units r := by linarith [hs.high]
  obtain rfl : s = r := units_strictMono.injective (by exact_mod_cast hunits)
  rcases Nat.mod_two_eq_zero_or_one s with heven | hodd
  · have hlow_odd := hr.low_odd (by omega)
    rw [Nat.add_sub_cancel] at hlow_odd
    linarith [hs.high]
  · linarith [hs.high_odd hodd]

theorem Captures.unique {r s : ℕ} {q : ℚ} (hr : Captures r q) (hs : Captures s q) : r = s :=
  Nat.le_antisymm (hr.le_of_le hs le_rfl) (hs.le_of_le hr le_rfl)

/-! ### `roundRatio` -/

/-- The shift leaves at most 53 bits of a whole number, and exactly 53 if it shifts at all. -/
theorem shifted_lt (n : ℕ) : n / 2 ^ (n.log2 - 52) < 2 * binade := by
  rw [Nat.div_lt_iff_lt_mul (by positivity)]
  calc n < 2 ^ (n.log2 + 1) := Nat.lt_log2_self
    _ ≤ 2 ^ (53 + (n.log2 - 52)) := Nat.pow_le_pow_right (by decide) (by omega)
    _ = 2 * binade * 2 ^ (n.log2 - 52) := by rw [pow_add]; rfl

theorem binade_le_shifted {n : ℕ} (h : 0 < n.log2 - 52) : binade ≤ n / 2 ^ (n.log2 - 52) := by
  have hn : n ≠ 0 := by
    rintro rfl
    simp at h
  rw [Nat.le_div_iff_mul_le (by positivity)]
  calc binade * 2 ^ (n.log2 - 52) = 2 ^ (52 + (n.log2 - 52)) := by rw [pow_add]; rfl
    _ = 2 ^ n.log2 := by congr 1; omega
    _ ≤ n := Nat.log2_self_le hn

/-- Cut to 53 bits, a quotient lies between two ranks that are a power of two apart. -/
theorem units_of_cut (num den : ℕ) :
    let k := (num / den).log2 - 52
    let low := num / (den * 2 ^ k)
    units (k * binade + low) = low * 2 ^ k ∧ units (k * binade + low + 1) = (low + 1) * 2 ^ k := by
  intro k low
  have hlow : low = num / den / 2 ^ k := (Nat.div_div_eq_div_mul _ _ _).symm
  have hlt : low < 2 * binade := hlow ▸ shifted_lt _
  have hfull : k = 0 ∨ binade ≤ low := by
    rcases Nat.eq_zero_or_pos k with hk | hk
    · exact .inl hk
    · exact .inr (hlow ▸ binade_le_shifted hk)
  rw [Nat.add_assoc]
  exact ⟨units_of_parts (Nat.le_of_lt hlt) hfull,
    units_of_parts hlt (hfull.imp_right Nat.le_succ_of_le)⟩

/-- A quotient lies in a step of `w` units, and the remainder tells in which half. -/
theorem quotient_in_step (num : ℕ) {den w : ℕ} (hden : 0 < den) (hw : 0 < w) :
    let low := num / (den * w)
    let rest := num % (den * w)
    ((low * w : ℕ) : ℚ) ≤ num / den ∧ (num : ℚ) / den < ((low + 1) * w : ℕ) ∧
      (2 * ((num : ℚ) / den) ≤ (low * w : ℕ) + ((low + 1) * w : ℕ) ↔ 2 * rest ≤ den * w) ∧
      (((low * w : ℕ) : ℚ) + ((low + 1) * w : ℕ) ≤ 2 * (num / den) ↔ den * w ≤ 2 * rest) := by
  intro low rest
  have hdenq : (0 : ℚ) < den := by exact_mod_cast hden
  have hnum : num = low * w * den + rest := by
    rw [Nat.mul_assoc, Nat.mul_comm, Nat.mul_comm w]
    exact (Nat.div_add_mod _ _).symm
  have hrest : rest < den * w := Nat.mod_lt _ (Nat.mul_pos hden hw)
  have hnext : (low + 1) * w * den = low * w * den + den * w := by ring
  rw [← mul_div_assoc, le_div_iff₀ hdenq, div_lt_iff₀ hdenq, div_le_iff₀ hdenq, le_div_iff₀ hdenq,
    add_mul (R := ℚ)]
  norm_cast
  omega

/-- A quotient is captured by the rank `s` of its step, or by the next if the remainder asks for
    rounding up. -/
theorem captures_of_step {num den w s : ℕ} (hden : 0 < den) (hw : 0 < w)
    (hunits : units s = num / (den * w) * w) (hnext : units (s + 1) = (num / (den * w) + 1) * w)
    (hparity : s % 2 = num / (den * w) % 2) :
    Captures (s + if den * w < 2 * (num % (den * w)) ||
      (2 * (num % (den * w)) == den * w && num / (den * w) % 2 == 1) then 1 else 0)
      ((num : ℚ) / den) := by
  obtain ⟨hle, hlt, hbelow, habove⟩ := quotient_in_step num hden hw
  rw [← hunits, ← hnext] at hbelow habove
  rw [← hunits] at hle
  rw [← hnext] at hlt
  have hbelow' := lt_iff_lt_of_le_iff_le habove
  have habove' := lt_iff_lt_of_le_iff_le hbelow
  simp only [Bool.or_eq_true, Bool.and_eq_true, decide_eq_true_eq, beq_iff_eq]
  generalize num % (den * w) = rest at *
  generalize num / (den * w) = low at *
  generalize den * w = step at *
  split
  · -- at least half-way, and if half-way then to an even rank
    next hup =>
    have hfar := cast_units_lt_succ (s + 1)
    refine ⟨?_, by linarith, fun hodd => ?_, fun _ => by linarith⟩
    · rw [Nat.add_sub_cancel]
      exact habove.mpr (by omega)
    · rw [Nat.add_sub_cancel]
      exact habove'.mpr (by omega)
  · -- at most half-way, and if half-way then from an even rank
    next hdown =>
    have hback : (units (s - 1) : ℚ) ≤ units s := by
      exact_mod_cast units_strictMono.monotone (Nat.sub_le s 1)
    refine ⟨by rw [Nat.add_zero]; linarith, hbelow.mpr (by omega), fun hodd => ?_,
      fun hodd => hbelow'.mpr (by omega)⟩
    have hpred := cast_units_lt_succ (s - 1)
    rw [Nat.sub_add_cancel (by omega)] at hpred
    rw [Nat.add_zero]
    linarith

/-- `roundRatio` finds the rank that captures the quotient, and stops at infinity. -/
theorem exists_captures_roundRatio (num : ℕ) {den : ℕ} (hden : 0 < den) :
    ∃ r, Captures r ((num : ℚ) / den) ∧ roundRatio num den = min r infiniteRank := by
  obtain ⟨hunits, hnext⟩ := units_of_cut num den
  exact ⟨_, captures_of_step hden (Nat.two_pow_pos _) hunits hnext (by simp only [binade]; omega),
    rfl⟩

theorem roundRatio_eq_of_captures {num den r : ℕ} (hden : 0 < den) (hr : r < infiniteRank)
    (h : Captures r ((num : ℚ) / den)) : roundRatio num den = r := by
  obtain ⟨s, hs, heq⟩ := exists_captures_roundRatio num hden
  rw [heq, ← h.unique hs, Nat.min_eq_left (Nat.le_of_lt hr)]

/-- Rounding keeps the order. -/
theorem roundRatio_mono {m n den : ℕ} (hden : 0 < den) (h : m ≤ n) :
    roundRatio m den ≤ roundRatio n den := by
  obtain ⟨r, hr, hm⟩ := exists_captures_roundRatio m hden
  obtain ⟨s, hs, hn⟩ := exists_captures_roundRatio n hden
  have hquotients : (m : ℚ) / den ≤ (n : ℚ) / den :=
    div_le_div_of_nonneg_right (by exact_mod_cast h) (Nat.cast_nonneg den)
  rw [hm, hn]
  exact min_le_min_right infiniteRank (hr.le_of_le hs hquotients)

theorem ofRatio_eq_of_captures {num den : ℕ} {rank : Fin (infiniteRank + 1)} (hden : 0 < den)
    (hr : rank.val < infiniteRank) (h : Captures rank ((num : ℚ) / den)) (negative : Bool) :
    ofRatio negative num den = .signed negative rank :=
  congrArg (signed negative) (Fin.ext (roundRatio_eq_of_captures hden hr h))

end FlatScheme.Binary64
