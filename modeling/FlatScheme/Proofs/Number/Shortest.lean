import FlatScheme.Number.Decimal
import FlatScheme.Proofs.Number.Rounding
import Mathlib.Algebra.Order.Field.Power

/-!
The shortest decimal reads back.

The search of `shortest` takes a point of some decimal grid only if `readsBack` accepts it, which
says that the rank captures the point, and the rank then is what the point rounds to. So all there
is to show is that the search never comes up empty: the grid of 17 digits is finer than the interval
of a rank is wide, because `10 ^ 16` exceeds `2 ^ 53`, and hence one of the two grid points around
the magnitude lies in the interval.
-/

namespace FlatScheme

open Binary64 (units units_strictMono cast_units_lt_succ units_succ units_succ_le scale scale_mono
  one one_eq_two_pow one_pos Captures captures_iff)

namespace Decimal

/-- The rational number a decimal stands for. -/
def value (d : Decimal) : ℚ := d.digits * (10 : ℚ) ^ d.exponent

theorem ten_zpow (e : ℤ) : (10 : ℚ) ^ e = (10 ^ e.toNat : ℕ) / (10 ^ (-e).toNat : ℕ) := by
  rcases Int.le_total 0 e with h | h
  · obtain ⟨n, rfl⟩ := Int.eq_ofNat_of_zero_le h
    simp
  · obtain ⟨n, hn⟩ := Int.eq_ofNat_of_zero_le (Int.neg_nonneg_of_nonpos h)
    obtain rfl : e = -n := by omega
    simp

theorem ten_zpow_pos (e : ℤ) : (0 : ℚ) < 10 ^ e := by positivity

/-! ### From decimals to ranks -/

/-- The value of a decimal in units, `u` to one, as a ratio of natural numbers. -/
theorem ratio_eq (d : Decimal) (u : ℕ) :
    ((d.digits * Nat.pow 10 d.exponent.toNat * u : ℕ) : ℚ) / (Nat.pow 10 (-d.exponent).toNat : ℕ) =
      d.value * u := by
  rw [value, ten_zpow, Nat.pow_eq, Nat.pow_eq]
  push_cast
  ring

/-- A decimal that a finite rank captures rounds to that rank. -/
theorem toBinary64_eq_of_captures {d : Decimal} {rank : Fin (infiniteRank + 1)}
    (hr : rank.val < infiniteRank) (h : Captures rank (d.value * one)) (negative : Bool) :
    d.toBinary64 negative = .signed negative rank := by
  rw [← ratio_eq] at h
  exact Binary64.ofRatio_eq_of_captures (Nat.pow_pos (by decide)) hr h negative

/-! ### Grids -/

/-- `readsBack` decides whether the rank captures the point. -/
theorem readsBack_iff {r scale den c : ℕ} (hscale : 0 < scale) :
    readsBack r scale den c = true ↔ Captures r ((c * den : ℕ) / (scale : ℚ)) := by
  have hpos : (0 : ℚ) < scale := by exact_mod_cast hscale
  have hge (n : ℕ) : (n : ℚ) ≤ 2 * ((c * den : ℕ) / (scale : ℚ)) ↔ n * scale ≤ 2 * c * den := by
    rw [← mul_div_assoc, le_div_iff₀ hpos, Nat.mul_assoc]
    norm_cast
  have hle (n : ℕ) : 2 * ((c * den : ℕ) / (scale : ℚ)) ≤ n ↔ 2 * c * den ≤ n * scale := by
    rw [← mul_div_assoc, div_le_iff₀ hpos, Nat.mul_assoc]
    norm_cast
  have hgt (n : ℕ) := lt_iff_lt_of_le_iff_le (hle n)
  have hlt (n : ℕ) := lt_iff_lt_of_le_iff_le (hge n)
  simp only [readsBack, captures_iff, ← Nat.cast_add, hge, hle, hgt, hlt]
  split <;> simp only [Bool.and_eq_true, decide_eq_true_eq] <;> omega

/-- On the grid `10 ^ e`, `readsBack` asks whether the rank captures the decimal. -/
theorem readsBack_grid_iff {r c u : ℕ} {e : ℤ} :
    readsBack r (Nat.pow 10 (-e).toNat) (u * Nat.pow 10 e.toNat) c = true ↔
      Captures r ((⟨c, e⟩ : Decimal).value * u) := by
  have hscale : 0 < Nat.pow 10 (-e).toNat := Nat.pow_pos (by decide)
  rw [← ratio_eq, readsBack_iff hscale, Nat.mul_comm u, ← Nat.mul_assoc]

/-- What a grid offers, the rank captures. -/
theorem captures_of_onGrid? {r c : ℕ} {e : ℤ} (h : onGrid? r e = some c) :
    Captures r ((⟨c, e⟩ : Decimal).value * one) := by
  rw [← readsBack_grid_iff]
  simp only [onGrid?] at h
  generalize one * Nat.pow 10 e.toNat = den at *
  split at h <;> cases h <;> (try split) <;> assumption

/-- Of two neighbours on the grid `10 ^ e` around the magnitude, the rank captures one if the grid
    is finer than its interval is wide. -/
theorem captures_neighbour {r c u : ℕ} {e : ℤ} (hr : 0 < r)
    (hfine : 2 * ((10 : ℚ) ^ e * u) < units (r + 1) - units (r - 1))
    (hle : (⟨c, e⟩ : Decimal).value * u ≤ units r)
    (hlt : units r < (⟨c + 1, e⟩ : Decimal).value * u) :
    Captures r ((⟨c, e⟩ : Decimal).value * u) ∨ Captures r ((⟨c + 1, e⟩ : Decimal).value * u) := by
  have hnext : (⟨c + 1, e⟩ : Decimal).value * u = (⟨c, e⟩ : Decimal).value * u + 10 ^ e * u := by
    simp only [value]
    push_cast
    ring
  have hbelow : (units (r - 1) : ℚ) < units r := by
    exact_mod_cast units_strictMono (Nat.sub_lt hr Nat.one_pos)
  have habove := cast_units_lt_succ r
  rcases lt_or_ge ((units (r - 1) : ℚ) + units r) (2 * ((⟨c, e⟩ : Decimal).value * u)) with h | h
  · exact .inl (.of_lt h (by linarith))
  · exact .inr (.of_lt (by linarith) (by linarith))

theorem onGrid?_isSome {r : ℕ} {e : ℤ} (hr : 0 < r)
    (hfine : 2 * ((10 : ℚ) ^ e * one) < units (r + 1) - units (r - 1)) : (onGrid? r e).isSome := by
  have hone := one_pos
  simp only [onGrid?]
  generalize one = u at *
  have hscale : (0 : ℚ) < (Nat.pow 10 (-e).toNat : ℕ) := by exact_mod_cast Nat.pow_pos (by decide)
  have hden : 0 < u * Nat.pow 10 e.toNat := Nat.mul_pos hone (Nat.pow_pos (by decide))
  have hpoint (c : ℕ) : (⟨c, e⟩ : Decimal).value * u =
      (c * (u * Nat.pow 10 e.toNat) : ℕ) / (Nat.pow 10 (-e).toNat : ℕ) := by
    rw [← ratio_eq, Nat.mul_comm u, ← Nat.mul_assoc]
  have hcaptures := captures_neighbour
    (c := units r * Nat.pow 10 (-e).toNat / (u * Nat.pow 10 e.toNat)) hr hfine
    (by
      rw [hpoint, div_le_iff₀ hscale]
      exact_mod_cast Nat.div_mul_le_self _ _)
    (by
      rw [hpoint, lt_div_iff₀ hscale]
      exact_mod_cast Nat.mul_comm _ _ ▸ Nat.lt_mul_div_succ _ hden)
  rw [← readsBack_grid_iff, ← readsBack_grid_iff] at hcaptures
  split <;> simp_all

/-! ### The leading digit -/

theorem ten_pow_length_pred_le {n : ℕ} (h : 0 < n) : 10 ^ ((Nat.toDigits 10 n).length - 1) ≤ n := by
  by_contra hlt
  rcases Nat.eq_zero_or_pos ((Nat.toDigits 10 n).length - 1) with hk | hk
  · rw [hk, pow_zero] at hlt
    omega
  · have := (Nat.length_toDigits_le_iff (by decide) hk).mpr (Nat.lt_of_not_le hlt)
    omega

theorem lt_ten_pow_length (n : ℕ) : n < 10 ^ (Nat.toDigits 10 n).length :=
  (Nat.length_toDigits_le_iff (by decide) Nat.length_toDigits_pos).mp (Nat.le_refl _)

theorem one_le_ten_pow {k : ℕ} (h : k = 400) : one ≤ Nat.pow 10 k := by
  obtain ⟨j, hj⟩ : ∃ j, j = 1074 := ⟨_, rfl⟩
  rw [one_eq_two_pow hj]
  calc 2 ^ j ≤ 2 ^ (3 * k) := Nat.pow_le_pow_right (by decide) (by omega)
    _ = (2 ^ 3) ^ k := pow_mul 2 3 k
    _ ≤ 10 ^ k := Nat.pow_le_pow_left (by decide) k

theorem leadingExponent_eq {k : ℕ} (h : k = 400) (r : ℕ) :
    leadingExponent r =
      ((Nat.toDigits 10 (units r * Nat.pow 10 k / one)).length - 1 : ℕ) - (k : ℤ) := by
  have := @Nat.length_toDigits_pos 10 (units r * Nat.pow 10 k / one)
  unfold leadingExponent
  rw [← h]
  omega

/-- A positive magnitude is at least the power of ten of its leading exponent. -/
theorem ten_zpow_leadingExponent_le {r : ℕ} (hr : 0 < r) :
    (10 : ℚ) ^ leadingExponent r * one ≤ units r := by
  obtain ⟨k, hk⟩ : ∃ k, k = 400 := ⟨_, rfl⟩
  have hunits : 1 ≤ units r := units_strictMono hr
  have hone := one_pos
  have hten := one_le_ten_pow hk
  rw [leadingExponent_eq hk]
  generalize one = u at *
  have hwhole : 0 < units r * Nat.pow 10 k / u :=
    Nat.div_pos (Nat.le_trans hten (Nat.le_mul_of_pos_left _ hunits)) hone
  have hdigits := ten_pow_length_pred_le hwhole
  generalize (Nat.toDigits 10 (units r * Nat.pow 10 k / u)).length - 1 = n at *
  have hle : 10 ^ n * u ≤ units r * 10 ^ k :=
    Nat.le_trans (Nat.mul_le_mul_right _ hdigits) (Nat.div_mul_le_self _ _)
  rw [zpow_sub₀ (by norm_num), zpow_natCast, zpow_natCast, div_mul_eq_mul_div,
    div_le_iff₀ (by positivity)]
  exact_mod_cast hle

/-- Sixteen places behind the leading digit the grid is finer than the interval of the rank is
    wide. -/
theorem seventeen_digits_fine {r : ℕ} (hr : 0 < r) :
    2 * ((10 : ℚ) ^ (leadingExponent r - 16) * one) < units (r + 1) - units (r - 1) := by
  obtain ⟨s, rfl⟩ : ∃ s, r = s + 1 := ⟨r - 1, by omega⟩
  have hlead := ten_zpow_leadingExponent_le hr
  have hstep : (10 : ℚ) ^ leadingExponent (s + 1) =
      10 ^ (leadingExponent (s + 1) - 16) * 10 ^ 16 := by
    rw [zpow_sub₀ (by norm_num)]
    field_simp
  rw [hstep] at hlead
  generalize (10 : ℚ) ^ (leadingExponent (s + 1) - 16) = g at *
  generalize one = u at *
  -- the step below the rank is `2 ^ scale s` units wide, the step above no narrower
  have hbelow : (units (s + 1) : ℚ) = units s + 2 ^ scale s := by exact_mod_cast units_succ s
  have habove : (units (s + 1 + 1) : ℚ) = units (s + 1) + 2 ^ scale (s + 1) := by
    exact_mod_cast units_succ (s + 1)
  have hwiden : (2 : ℚ) ^ scale s ≤ 2 ^ scale (s + 1) :=
    pow_le_pow_right₀ (by norm_num) (scale_mono s.le_succ)
  have hrelative : (units (s + 1) : ℚ) ≤ 2 ^ 53 * 2 ^ scale s := by exact_mod_cast units_succ_le s
  have hpos : (0 : ℚ) < 2 ^ scale s := by positivity
  rw [Nat.add_sub_cancel]
  linarith

/-! ### The search -/

theorem strip_value (count : ℕ) (d : Decimal) : (strip count d).value = d.value := by
  induction count generalizing d with
  | zero => rfl
  | succ count ih =>
    rw [strip]
    split
    · next h =>
      obtain ⟨n, hn⟩ : ∃ n, d.digits = 10 * n := ⟨d.digits / 10, by omega⟩
      rw [ih, value, value, hn, Nat.mul_div_cancel_left n (by decide), zpow_add_one₀ (by norm_num)]
      push_cast
      ring
    · rfl

/-- The decimal found for a positive finite rank is captured by it. -/
theorem captures_shortest {r : ℕ} (hr : 0 < r) : Captures r ((shortest r).value * one) := by
  obtain ⟨c, hc⟩ := Option.isSome_iff_exists.mp (onGrid?_isSome hr (seventeen_digits_fine hr))
  have hfound : ((List.range 17).findSome? fun (n : ℕ) =>
      (onGrid? r (leadingExponent r - n)).map fun c =>
        strip 18 ⟨c, leadingExponent r - n⟩).isSome := by
    rw [List.findSome?_isSome_iff]
    exact ⟨16, by decide, by simp [hc]⟩
  obtain ⟨d, hd⟩ := Option.isSome_iff_exists.mp hfound
  obtain ⟨n, -, hn⟩ := List.exists_of_findSome?_eq_some hd
  obtain ⟨c', hc', rfl⟩ := Option.map_eq_some_iff.mp hn
  have hshortest : shortest r = strip 18 ⟨c', leadingExponent r - n⟩ := by
    rw [shortest]
    exact (congrArg (Option.getD · _) hd)
  rw [hshortest, strip_value]
  exact captures_of_onGrid? hc'

/-- A decimal captured by a positive rank has a digit other than zero. -/
theorem digits_pos_of_captures {r : ℕ} {d : Decimal} (hr : 0 < r) (h : Captures r (d.value * one)) :
    0 < d.digits := by
  obtain ⟨s, rfl⟩ : ∃ s, r = s + 1 := ⟨r - 1, by omega⟩
  have hlow := h.units_pred_lt
  by_contra hzero
  rw [value, Nat.eq_zero_of_not_pos hzero, Nat.cast_zero, zero_mul, zero_mul] at hlow
  exact absurd hlow (not_lt.mpr (Nat.cast_nonneg _))

/-! ### How large exponents get -/

theorem ten_zpow_le_value {d : Decimal} (h : 0 < d.digits) :
    (10 : ℚ) ^ (d.exponent + (Nat.toDigits 10 d.digits).length - 1) ≤ d.value := by
  have hlen := @Nat.length_toDigits_pos 10 d.digits
  have hle : ((10 : ℚ) ^ ((Nat.toDigits 10 d.digits).length - 1)) ≤ d.digits := by
    exact_mod_cast ten_pow_length_pred_le h
  rw [show d.exponent + (Nat.toDigits 10 d.digits).length - 1 =
    ((Nat.toDigits 10 d.digits).length - 1 : ℕ) + d.exponent by omega, zpow_add₀ (by norm_num),
    zpow_natCast, value]
  exact mul_le_mul_of_nonneg_right hle (ten_zpow_pos _).le

theorem value_lt_ten_zpow (d : Decimal) :
    d.value < (10 : ℚ) ^ (d.exponent + (Nat.toDigits 10 d.digits).length) := by
  have hlt : (d.digits : ℚ) < 10 ^ (Nat.toDigits 10 d.digits).length := by
    exact_mod_cast lt_ten_pow_length d.digits
  rw [add_comm, zpow_add₀ (by norm_num), zpow_natCast, value]
  exact mul_lt_mul_of_pos_right hlt (ten_zpow_pos _)

/-- A decimal captured by a positive finite rank has fewer than ten thousand places before and
    behind the point. -/
theorem lead_bounds_of_captures {r : ℕ} {d : Decimal} (hr : 0 < r) (hfinite : r < infiniteRank)
    (h : Captures r (d.value * one)) :
    -10000 < d.exponent + (Nat.toDigits 10 d.digits).length - 1 ∧
      d.exponent + (Nat.toDigits 10 d.digits).length - 1 < 10000 := by
  have hlead := ten_zpow_le_value (digits_pos_of_captures hr h)
  have hnext := value_lt_ten_zpow d
  have hpos : 0 < d.value := lt_of_lt_of_le (ten_zpow_pos _) hlead
  obtain ⟨k, hk⟩ : ∃ k, k = 1074 := ⟨_, rfl⟩
  rw [one_eq_two_pow hk] at h
  have hone : (1 : ℚ) ≤ 2 ^ k := one_le_pow₀ (by norm_num)
  have hten (n : ℕ) : (2 : ℚ) ^ n ≤ 10 ^ n := pow_le_pow_left₀ (by norm_num) (by norm_num) n
  constructor
  · -- at least half a unit
    have hunits : (1 : ℚ) ≤ units r := by exact_mod_cast units_strictMono hr
    have hhalf : (1 : ℚ) ≤ d.value * 2 ^ (k + 1) := by
      have hlow := h.low
      have hpred : (0 : ℚ) ≤ units (r - 1) := Nat.cast_nonneg _
      push_cast at hlow
      rw [pow_succ]
      linarith
    have hbelow : (10 : ℚ) ^ (-(k + 1 : ℕ) : ℤ) ≤ d.value := by
      rw [zpow_neg, zpow_natCast, inv_le_iff_one_le_mul₀ (by positivity)]
      exact hhalf.trans (mul_le_mul_of_nonneg_left (hten _) hpos.le)
    have hlt := (zpow_lt_zpow_iff_right₀ (by norm_num : (1 : ℚ) < 10)).mp (hbelow.trans_lt hnext)
    omega
  · have hscale : scale r ≤ 2046 := by
      simp only [scale, binade, infiniteRank] at *
      omega
    have hunits : (units (r + 1) : ℚ) ≤ 2 ^ (53 + scale r) := by
      rw [pow_add]
      exact_mod_cast units_succ_le r
    have habove : d.value < (10 : ℚ) ^ ((53 + scale r : ℕ) : ℤ) := by
      rw [zpow_natCast]
      refine lt_of_lt_of_le ?_ (hten _)
      have hlt := h.lt_units_succ
      push_cast at hlt
      calc d.value ≤ d.value * 2 ^ k := le_mul_of_one_le_right hpos.le hone
        _ < units (r + 1) := hlt
        _ ≤ 2 ^ (53 + scale r) := hunits
    have hlt := (zpow_lt_zpow_iff_right₀ (by norm_num : (1 : ℚ) < 10)).mp (hlead.trans_lt habove)
    omega

end Decimal

end FlatScheme
