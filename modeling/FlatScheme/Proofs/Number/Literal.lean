import FlatScheme.Number
import FlatScheme.Proofs.Number.Shortest

/-!
Number literals: what `text` writes, `read?` reads back.

Reading cuts a literal at its first characters that are no digits, so it is enough to know how a
text is put together from runs of digits: the two layouts are both a run of digits with a point in
it or behind it, and the scientific one has an exponent part behind that. The decimal read need not
be the one written, as the positional layout may put zeros behind the digits, but it has the same
value. Together with `captures_shortest` this makes every finite float read back as itself. Integers
are told from floats by having no point and no exponent.
-/

namespace FlatScheme

namespace Decimal

/-! ### Runs of digits -/

theorem digitsValue_eq (start : ℕ) (ds : List Char) : digitsValue start ds =
    Nat.ofDigitChars 10 ds start := by
  rw [digitsValue, Nat.ofDigitChars_eq_foldl]
  congr 1
  funext n c
  rw [Nat.mul_comm]

theorem digitsValue_toDigits (n : ℕ) : digitsValue 0 (Nat.toDigits 10 n) = n := by
  rw [digitsValue_eq, Nat.ofDigitChars_ten_toDigits]

theorem digitsValue_append (start : ℕ) (ds es : List Char) :
    digitsValue start (ds ++ es) = digitsValue (digitsValue start ds) es :=
  List.foldl_append

theorem digitsValue_zeros (start n : ℕ) :
    digitsValue start (List.replicate n '0') = start * 10 ^ n := by
  rw [digitsValue_eq, Nat.ofDigitChars_replicate_zero, Nat.mul_comm]

theorem le_digitsValue (start : ℕ) (ds : List Char) : start ≤ digitsValue start ds := by
  induction ds generalizing start with
  | nil => exact Nat.le_refl start
  | cons d ds ih =>
    have hstep : start ≤ start * 10 + (d.toNat - '0'.toNat) := by omega
    exact Nat.le_trans hstep (ih _)

/-- Below ten thousand nothing of an exponent is passed over. -/
theorem exponentValue_eq {ds : List Char} (h : digitsValue 0 ds < 10000) :
    exponentValue ds = digitsValue 0 ds := by
  unfold exponentValue
  generalize 0 = start at h
  induction ds generalizing start with
  | nil => rfl
  | cons d ds ih =>
    have hnext : start * 10 + (d.toNat - '0'.toNat) < 10000 :=
      Nat.lt_of_le_of_lt (le_digitsValue _ ds) h
    rw [List.foldl_cons, if_pos (by omega)]
    exact ih _ h

/-- Is the text made of decimal digits alone? -/
def IsRun (ds : List Char) : Prop := ∀ c ∈ ds, c.isDigit = true

theorem IsRun.append {ds es : List Char} (hds : IsRun ds) (hes : IsRun es) : IsRun (ds ++ es) := by
  intro c hc
  rcases List.mem_append.mp hc with hc | hc
  · exact hds c hc
  · exact hes c hc

theorem IsRun.take {ds : List Char} (h : IsRun ds) (n : ℕ) : IsRun (ds.take n) :=
  fun c hc => h c (List.mem_of_mem_take hc)

theorem IsRun.drop {ds : List Char} (h : IsRun ds) (n : ℕ) : IsRun (ds.drop n) :=
  fun c hc => h c (List.mem_of_mem_drop hc)

theorem isRun_toDigits (n : ℕ) : IsRun (Nat.toDigits 10 n) :=
  fun _ hc => Nat.isDigit_of_mem_toDigits (by decide) (by decide) hc

theorem isRun_zeros (n : ℕ) : IsRun (List.replicate n '0') := by
  intro c hc
  obtain rfl := List.eq_of_mem_replicate hc
  rfl

theorem IsRun.all {ds : List Char} (h : IsRun ds) : ds.all Char.isDigit = true :=
  List.all_eq_true.mpr h

/-! ### Parts of a literal -/

theorem exponent?_exponentText (width : ℕ) {x : ℤ} (h : x.natAbs < 10000) :
    exponent? ('e' :: exponentText width x) = some x := by
  unfold exponentText
  dsimp only
  generalize hds : List.replicate (width - (Nat.toDigits 10 x.natAbs).length) '0' ++
    Nat.toDigits 10 x.natAbs = ds
  have hrun : IsRun ds := hds ▸ (isRun_zeros _).append (isRun_toDigits _)
  have hne : ds ≠ [] := by
    rw [← hds]
    simp
  have hvalue : digitsValue 0 ds = x.natAbs := by
    rw [← hds, digitsValue_append, digitsValue_zeros, Nat.zero_mul, digitsValue_toDigits]
  have hexponent : exponentValue ds = x.natAbs := by rw [exponentValue_eq (hvalue ▸ h), hvalue]
  rcases Int.lt_or_le x 0 with hx | hx
  · rw [if_pos hx]
    simp [exponent?, sign, hne, hrun.all, hexponent, abs_of_neg hx]
  · rw [if_neg (Int.not_lt.mpr hx)]
    simp [exponent?, sign, hne, hrun.all, hexponent, abs_of_nonneg hx]

/-- A literal with a point: digits on both sides of it and something else behind. -/
theorem read?_point {whole fraction : List Char} (tail : List Char) (hwhole : IsRun whole)
    (hne : whole ≠ []) (hfraction : IsRun fraction) (htail : tail.takeWhile Char.isDigit = []) :
    read? (whole ++ '.' :: (fraction ++ tail)) = (exponent? tail).map fun e =>
      ⟨digitsValue 0 (whole ++ fraction), e - fraction.length⟩ := by
  have hdrop : tail.dropWhile Char.isDigit = tail := by
    conv_rhs => rw [← List.takeWhile_append_dropWhile (p := Char.isDigit) (l := tail), htail]
    rfl
  unfold read?
  rw [List.takeWhile_append_of_pos hwhole, List.dropWhile_append_of_pos hwhole]
  simp [List.takeWhile_append_of_pos hfraction, List.dropWhile_append_of_pos hfraction, htail,
    hdrop, hne, digitsValue_append]

/-- A literal without a point: digits and an exponent part. -/
theorem read?_whole {whole : List Char} (tail : List Char) (hwhole : IsRun whole)
    (hne : whole ≠ []) :
    read? (whole ++ 'e' :: tail) =
      (exponent? ('e' :: tail)).map fun e => ⟨digitsValue 0 whole, e⟩ := by
  unfold read?
  rw [List.takeWhile_append_of_pos hwhole, List.dropWhile_append_of_pos hwhole]
  simp [hne, digitsValue]

/-- A literal that ends with the digits behind its point. -/
theorem read?_fixed {whole fraction : List Char} (hwhole : IsRun whole) (hne : whole ≠ [])
    (hfraction : IsRun fraction) :
    read? (whole ++ '.' :: fraction) =
      some ⟨digitsValue 0 (whole ++ fraction), -(fraction.length : ℤ)⟩ := by
  have hread := read?_point [] hwhole hne hfraction rfl
  rwa [List.append_nil, exponent?, Option.map_some, Int.zero_sub] at hread

/-! ### The two layouts -/

theorem read?_scientific {width : ℕ} {ds : List Char} {lead : ℤ} (hrun : IsRun ds) (hne : ds ≠ [])
    (hlead : lead.natAbs < 10000) :
    read? (scientific width ds lead) = some ⟨digitsValue 0 ds, lead + 1 - ds.length⟩ := by
  obtain ⟨d, rest, rfl⟩ := List.exists_cons_of_ne_nil hne
  have hd : IsRun [d] := fun c hc => hrun c (by simp_all)
  have hexponent := exponent?_exponentText width hlead
  rcases rest with _ | ⟨d', rest⟩
  · have hread := read?_whole (exponentText width lead) hd (by simp)
    simp only [hexponent, Option.map_some] at hread
    simpa [scientific] using hread
  · have hread := read?_point ('e' :: exponentText width lead) hd (by simp)
      (hrun.drop 1) (by simp)
    simp only [hexponent, Option.map_some] at hread
    simp only [scientific, List.drop_succ_cons, List.drop_zero, List.take_succ_cons, List.take_zero,
      List.cons_append, List.nil_append] at hread ⊢
    rw [hread]
    simp

theorem read?_positional {ds : List Char} (lead : ℤ) (hrun : IsRun ds) (hne : ds ≠ []) :
    ∃ d, read? (positional ds lead) = some d ∧
      d.value = (⟨digitsValue 0 ds, lead + 1 - ds.length⟩ : Decimal).value := by
  have hzero : IsRun ['0'] := isRun_zeros 1
  unfold positional
  split
  · -- a magnitude below one: zeros in front of the digits
    next hneg =>
    refine ⟨_, read?_fixed hzero (by simp) ((isRun_zeros _).append hrun), ?_⟩
    have hdigits : digitsValue 0 (['0'] ++ (List.replicate (-lead - 1).toNat '0' ++ ds)) =
        digitsValue 0 ds := by
      rw [digitsValue_append, digitsValue_append, digitsValue_zeros]
      simp [digitsValue]
    rw [hdigits]
    congr 2
    rw [List.length_append, List.length_replicate]
    omega
  · next hpos =>
    obtain ⟨w, hw⟩ : ∃ w : ℕ, lead + 1 = w := ⟨(lead + 1).toNat, by omega⟩
    rw [hw, Int.toNat_natCast]
    rcases Nat.lt_or_ge w ds.length with hlt | hge
    · -- the point falls among the digits
      have hfill : ds ++ List.replicate (w - ds.length) '0' = ds := by
        rw [Nat.sub_eq_zero_of_le hlt.le, List.replicate_zero, List.append_nil]
      have hbehind : ds.drop w ≠ [] := List.drop_eq_nil_iff.not.mpr (by omega)
      obtain ⟨d, rest, hdrop⟩ := List.exists_cons_of_ne_nil hbehind
      have hread := read?_fixed (hrun.take w) (by simp [hne]; omega) (hrun.drop w)
      rw [List.take_append_drop, hdrop] at hread
      dsimp only
      rw [hfill, hdrop]
      refine ⟨_, hread, ?_⟩
      have hlen := congrArg List.length hdrop
      rw [List.length_drop] at hlen
      congr 2
      omega
    · -- zeros fill up to the point
      have hpadded : (ds ++ List.replicate (w - ds.length) '0').length = w := by simp; omega
      dsimp only
      rw [List.drop_eq_nil_of_le hpadded.le, List.take_of_length_le hpadded.le]
      refine ⟨_, read?_fixed (hrun.append (isRun_zeros _)) (by simp [hne]) hzero, ?_⟩
      have hdigits : digitsValue 0 (ds ++ List.replicate (w - ds.length) '0' ++ ['0']) =
          digitsValue 0 ds * 10 ^ (w - ds.length) * 10 := by
        rw [digitsValue_append, digitsValue_append, digitsValue_zeros]
        rfl
      rw [hdigits, value, value, ← Nat.cast_sub hge, zpow_natCast]
      push_cast
      simp

/-- The text of a decimal whose exponent is not passed over reads back as a decimal of the same
    value. -/
theorem read?_text (layout : Layout) {d : Decimal}
    (hlead : (d.exponent + (Nat.toDigits 10 d.digits).length - 1).natAbs < 10000) :
    ∃ d', read? (d.text layout) = some d' ∧ d'.value = d.value := by
  have hsame : (⟨digitsValue 0 (Nat.toDigits 10 d.digits),
      d.exponent + (Nat.toDigits 10 d.digits).length - 1 + 1 - (Nat.toDigits 10 d.digits).length⟩ :
      Decimal) = d := by
    rw [digitsValue_toDigits]
    congr 1
    omega
  unfold text
  dsimp only
  split
  · obtain ⟨d', hread, hvalue⟩ := read?_positional
      (d.exponent + (Nat.toDigits 10 d.digits).length - 1) (isRun_toDigits d.digits) (by simp)
    exact ⟨d', hread, by rw [hvalue, hsame]⟩
  · exact ⟨_, read?_scientific (isRun_toDigits d.digits) (by simp) hlead, by rw [hsame]⟩

/-! ### The characters of a literal -/

/-- The characters that number literals are made of. -/
def IsNumeral (c : Char) : Prop := c.isDigit = true ∨ c ∈ ['.', 'e', '+', '-']

theorem IsRun.isNumeral {ds : List Char} (h : IsRun ds) : ∀ c ∈ ds, IsNumeral c :=
  fun c hc => .inl (h c hc)

/-- Float literals without a sign: digits, then a point or the mark of an exponent, then the
    rest. -/
inductive FloatForm : List Char → Prop
  | parts (ds : List Char) {rest : List Char} {mark : Char} (run : IsRun ds) (ne : ds ≠ [])
    (mark_eq : mark = '.' ∨ mark = 'e') (numeral : ∀ c ∈ rest, IsNumeral c) :
    FloatForm (ds ++ mark :: rest)

theorem exponentText_isNumeral (width : ℕ) (x : ℤ) : ∀ c ∈ exponentText width x, IsNumeral c := by
  intro c hc
  rw [exponentText, List.mem_cons] at hc
  rcases hc with rfl | hc
  · split <;> exact .inr (by decide)
  · exact ((isRun_zeros _).append (isRun_toDigits _)).isNumeral c hc

theorem floatForm_scientific {width : ℕ} {ds : List Char} {lead : ℤ} (hrun : IsRun ds)
    (hne : ds ≠ []) : FloatForm (scientific width ds lead) := by
  obtain ⟨d, rest, rfl⟩ := List.exists_cons_of_ne_nil hne
  have hexponent := exponentText_isNumeral width lead
  rcases rest with _ | ⟨d', rest⟩
  · exact .parts [d] hrun (by simp) (.inr rfl) hexponent
  · refine .parts [d] (hrun.take 1) (by simp) (.inl rfl) fun c hc => ?_
    rcases List.mem_append.mp hc with hc | hc
    · exact .inl (hrun c (List.mem_cons_of_mem _ hc))
    · rcases List.mem_cons.mp hc with rfl | hc
      · exact .inr (by decide)
      · exact hexponent c hc

theorem floatForm_positional {ds : List Char} {lead : ℤ} (hrun : IsRun ds) (hne : ds ≠ []) :
    FloatForm (positional ds lead) := by
  have hzero : IsRun ['0'] := isRun_zeros 1
  unfold positional
  split
  · exact .parts ['0'] hzero (by simp) (.inl rfl) ((isRun_zeros _).append hrun).isNumeral
  · next hpos =>
    have hpadded := hrun.append (isRun_zeros ((lead + 1).toNat - ds.length))
    refine .parts _ (hpadded.take _) (by simp [hne]; omega) (.inl rfl) ?_
    split
    · exact hzero.isNumeral
    · exact (hpadded.drop _).isNumeral

theorem floatForm_text (layout : Layout) (d : Decimal) : FloatForm (d.text layout) := by
  unfold text
  dsimp only
  split
  · exact floatForm_positional (isRun_toDigits _) (by simp)
  · exact floatForm_scientific (isRun_toDigits _) (by simp)

theorem sign_of_isDigit {c : Char} (h : c.isDigit = true) (cs : List Char) :
    sign (c :: cs) = (false, c :: cs) := by
  unfold sign
  split
  · simp_all
  · simp_all
  · rfl

theorem sign_minus (cs : List Char) : sign ('-' :: cs) = (true, cs) := rfl

theorem IsRun.exists_cons {ds : List Char} (h : IsRun ds) (hne : ds ≠ []) :
    ∃ d rest, ds = d :: rest ∧ d.isDigit = true ∧ ∀ c ∈ rest, IsNumeral c := by
  obtain ⟨d, rest, rfl⟩ := List.exists_cons_of_ne_nil hne
  exact ⟨d, rest, rfl, h d List.mem_cons_self, fun c hc => .inl (h c (List.mem_cons_of_mem _ hc))⟩

theorem FloatForm.exists_cons {cs : List Char} (h : FloatForm cs) :
    ∃ d rest, cs = d :: rest ∧ d.isDigit = true ∧ ∀ c ∈ rest, IsNumeral c := by
  obtain ⟨ds, hrun, hne, hmark, hrest⟩ := h
  obtain ⟨d, ds, rfl, hd, hds⟩ := hrun.exists_cons hne
  refine ⟨d, _, rfl, hd, fun c hc => ?_⟩
  rcases List.mem_append.mp hc with hc | hc
  · exact hds c hc
  · rcases List.mem_cons.mp hc with rfl | hc
    · rcases hmark with rfl | rfl <;> exact .inr (by decide)
    · exact hrest c hc

theorem IsRun.sign_eq {ds : List Char} (h : IsRun ds) (hne : ds ≠ []) : sign ds = (false, ds) := by
  obtain ⟨d, rest, rfl, hd, -⟩ := h.exists_cons hne
  exact sign_of_isDigit hd rest

theorem FloatForm.sign_eq {cs : List Char} (h : FloatForm cs) : sign cs = (false, cs) := by
  obtain ⟨d, rest, rfl, hd, -⟩ := h.exists_cons
  exact sign_of_isDigit hd rest

theorem FloatForm.not_all_isDigit {cs : List Char} (h : FloatForm cs) : cs.all Char.isDigit =
    false := by
  obtain ⟨_, -, -, rfl | rfl, -⟩ := h <;> simp

end Decimal

namespace Binary64

/-- Is the float neither infinite nor not-a-number? -/
def IsFinite : Binary64 → Prop
  | .nan => False
  | .signed _ rank => rank.val < infiniteRank

theorem captures_zero : Captures 0 0 :=
  ⟨by simp [units_zero], by simp [units_zero], by simp, by simp⟩

theorem isFinite_ofRatio {negative : Bool} {num den : ℕ}
    (h : ofRatio negative num den ≠ infinity negative) : (ofRatio negative num den).IsFinite :=
  Nat.lt_of_le_of_ne (Nat.min_le_right _ _) fun heq => h (congrArg (signed negative) (Fin.ext heq))

theorem isFinite_of_read? {cs : List Char} {x : Binary64} (h : read? cs = some x) : x.IsFinite := by
  simp only [read?, Option.bind_eq_some_iff, Option.ite_none_left_eq_some] at h
  obtain ⟨d, -, hne, hx⟩ := h
  cases hx
  exact isFinite_ofRatio hne

/-- A literal whose decimal is captured by a finite rank is read as the float of that rank. -/
theorem read?_of_captures {cs ds : List Char} {d : Decimal} {negative : Bool}
    {rank : Fin (infiniteRank + 1)} (hsign : Decimal.sign cs = (negative, ds))
    (hread : Decimal.read? ds = some d) (hr : rank.val < infiniteRank)
    (hcaptures : Captures rank (d.value * one)) : read? cs = some (.signed negative rank) := by
  have hfinite : signed negative rank ≠ infinity negative := by
    intro heq
    injection heq with _ hrank
    rw [hrank] at hr
    exact Nat.lt_irrefl _ hr
  rw [read?, hsign]
  dsimp only
  rw [hread, Option.bind_some, Decimal.toBinary64_eq_of_captures hr hcaptures, if_neg hfinite]

end Binary64

namespace Number

open Binary64 (Captures)
open Decimal (FloatForm IsNumeral)

/-- No float literal is an integer literal, with a sign or without. -/
theorem readInt?_of_floatForm {cs : List Char} (h : FloatForm cs) :
    readInt? cs = none ∧ readInt? ('-' :: cs) = none := by
  constructor
  · simp [readInt?, h.sign_eq, h.not_all_isDigit]
  · simp [readInt?, Decimal.sign, h.not_all_isDigit]

/-- A float literal, with a sign or without, whose decimal is captured by a finite rank. -/
theorem read?_of_floatForm {cs : List Char} {d : Decimal} {rank : Fin (infiniteRank + 1)}
    (hform : FloatForm cs) (hread : Decimal.read? cs = some d) (hr : rank.val < infiniteRank)
    (hcaptures : Captures rank (d.value * Binary64.one)) (negative : Bool) :
    read? ((if negative then ['-'] else []) ++ cs) = some (.float (.signed negative rank)) := by
  obtain ⟨hplain, hminus⟩ := readInt?_of_floatForm hform
  cases negative
  · rw [if_neg Bool.false_ne_true, List.nil_append, read?, hplain]
    dsimp only
    rw [Binary64.read?_of_captures hform.sign_eq hread hr hcaptures, Option.map_some]
  · rw [if_pos rfl, List.singleton_append, read?, hminus]
    dsimp only
    rw [Binary64.read?_of_captures (Decimal.sign_minus cs) hread hr hcaptures, Option.map_some]

/-- The text of a finite magnitude has the form of a float literal, and its decimal is captured. -/
theorem magnitude_captured {rank : ℕ} (hr : rank < infiniteRank) :
    ∃ cs d,
      (if rank = 0 then "0.0"
        else String.ofList ((Decimal.shortest rank).text layout)).toList = cs ∧
      FloatForm cs ∧ Decimal.read? cs = some d ∧ Captures rank (d.value * Binary64.one) := by
  rcases Nat.eq_zero_or_pos rank with rfl | hpos
  · refine ⟨_, ⟨0, -1⟩, rfl, ?_, rfl, ?_⟩
    · exact .parts ['0'] (Decimal.isRun_zeros 1) (by simp) (.inl rfl)
        (Decimal.isRun_zeros 1).isNumeral
    · rw [Decimal.value, Nat.cast_zero, zero_mul, zero_mul]
      exact Binary64.captures_zero
  · have hcaptures := Decimal.captures_shortest hpos
    have hlead := Decimal.lead_bounds_of_captures hpos hr hcaptures
    obtain ⟨d, hread, hvalue⟩ := Decimal.read?_text (d := Decimal.shortest rank) layout (by omega)
    rw [if_neg (Nat.ne_of_gt hpos), String.toList_ofList]
    exact ⟨_, d, rfl, Decimal.floatForm_text _ _, hread, hvalue ▸ hcaptures⟩

/-- The text of a finite float is a sign if it is negative and a float literal, and reads back. -/
theorem floatText_spec (negative : Bool) {rank : Fin (infiniteRank + 1)}
    (hr : rank.val < infiniteRank) :
    ∃ cs, FloatForm cs ∧
      (floatText (.signed negative rank)).toList = (if negative then ['-'] else []) ++ cs ∧
      read? ((if negative then ['-'] else []) ++ cs) = some (.float (.signed negative rank)) := by
  obtain ⟨cs, d, htext, hform, hread, hcaptures⟩ := magnitude_captured hr
  refine ⟨cs, hform, ?_, read?_of_floatForm hform hread hr hcaptures negative⟩
  rw [floatText, if_neg (Nat.ne_of_lt hr), String.toList_append, htext]
  cases negative <;> rfl

/-- The text of an integer is a sign if it is negative and a run of digits. -/
theorem toList_toString_int (n : ℤ) :
    (toString n).toList = (if n < 0 then ['-'] else []) ++ Nat.toDigits 10 n.natAbs := by
  rw [Int.toString_eq_repr, Int.repr_eq_if]
  rcases Int.lt_or_le n 0 with h | h
  · rw [if_neg (Int.not_le.mpr h), if_pos h, String.toList_append, Nat.toList_repr,
      show (-n).toNat = n.natAbs by omega]
    rfl
  · rw [if_pos h, if_neg (Int.not_lt.mpr h), Nat.toList_repr, show n.toNat = n.natAbs by omega]
    rfl

theorem readInt?_toString (n : ℤ) : readInt? (toString n).toList = some n := by
  have hrun := Decimal.isRun_toDigits n.natAbs
  have hne : Nat.toDigits 10 n.natAbs ≠ [] := Nat.toDigits_ne_nil
  have hvalue := Decimal.digitsValue_toDigits n.natAbs
  rw [toList_toString_int]
  generalize Nat.toDigits 10 n.natAbs = ds at *
  rcases Int.lt_or_le n 0 with h | h
  · rw [if_pos h, List.singleton_append, readInt?, Decimal.sign_minus]
    simp [hne, hrun.all, hvalue, abs_of_neg h]
  · rw [if_neg (Int.not_lt.mpr h), List.nil_append, readInt?, hrun.sign_eq hne]
    simp [hne, hrun.all, hvalue, abs_of_nonneg h]

/-! ### Numbers that have a literal -/

/-- Can the number be read? Integers are never read as wide, and floats are finite. -/
def IsLiteral : Number → Prop
  | .int _ wide => wide = false
  | .float x => x.IsFinite

theorem isLiteral_of_read? {cs : List Char} {n : Number} (h : read? cs = some n) : n.IsLiteral := by
  unfold read? at h
  split at h
  · cases h
    rfl
  · obtain ⟨x, hx, rfl⟩ := Option.map_eq_some_iff.mp h
    exact Binary64.isFinite_of_read? hx

/-- The text of a number with a literal reads back as that number. -/
theorem read?_text : ∀ {n : Number}, n.IsLiteral → read? n.text.toList = some n
  | .int n _, rfl => by
    rw [text, read?, readInt?_toString]
    rfl
  | .float (.signed negative rank), h => by
    obtain ⟨cs, -, htext, hread⟩ := floatText_spec negative h
    rw [text, htext, hread]

theorem signed_shape {negative : Prop} [Decidable negative] {ds : List Char}
    (h : ∃ d rest, ds = d :: rest ∧ d.isDigit = true ∧ ∀ c ∈ rest, IsNumeral c) :
    ∃ c cs, (if negative then ['-'] else []) ++ ds = c :: cs ∧ (c.isDigit = true ∨ c = '-') ∧
      ∀ d ∈ cs, IsNumeral d := by
  obtain ⟨d, rest, rfl, hd, hrest⟩ := h
  split
  · refine ⟨'-', d :: rest, rfl, .inr rfl, fun c hc => ?_⟩
    rcases List.mem_cons.mp hc with rfl | hc
    · exact .inl hd
    · exact hrest c hc
  · exact ⟨d, rest, rfl, .inl hd, hrest⟩

/-- The text of a number with a literal begins with a digit or a minus, and goes on in numerals. -/
theorem text_shape : ∀ {n : Number}, n.IsLiteral → ∃ c cs, n.text.toList = c :: cs ∧
    (c.isDigit = true ∨ c = '-') ∧ ∀ d ∈ cs, IsNumeral d
  | .int n _, rfl => by
    rw [text, toList_toString_int]
    exact signed_shape ((Decimal.isRun_toDigits _).exists_cons Nat.toDigits_ne_nil)
  | .float (.signed negative rank), h => by
    obtain ⟨cs, hform, htext, -⟩ := floatText_spec negative h
    rw [text, htext]
    exact signed_shape hform.exists_cons

end Number

end FlatScheme
