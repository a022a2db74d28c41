import FlatScheme.Number

/-!
The form of integers.

An integer is held in the ordinary way or is wide, and `narrowed` forgets which. The tests, the
order, the text and the quotients of numbers do not depend on it. Sums and differences depend on it
at most in their own form, and so do products of integers; the product of a wide integer and a float
is another number than that of an ordinary one.
-/

namespace FlatScheme.Number

/-- The number as it is read back: an integer is never read as wide. -/
def narrowed : Number → Number
  | .int n _ => ofInt n
  | .float x => .float x

theorem eq_int_of_narrowed {k : Int} {wide : Bool} {n : Number}
    (h : narrowed (.int k wide) = n.narrowed) : ∃ w, n = .int k w := by
  cases n <;> simp_all [narrowed, ofInt]

theorem text_narrowed (n : Number) : n.narrowed.text = n.text := by
  cases n <;> rfl

theorem toFloat_narrowed (n : Number) : n.narrowed.toFloat = n.toFloat := by
  cases n <;> rfl

theorem isNaN_narrowed (n : Number) : n.narrowed.isNaN = n.isNaN := by
  cases n <;> rfl

theorem cmp_narrowed (a b : Number) : a.narrowed.cmp b.narrowed = a.cmp b := by
  cases a <;> cases b <;> rfl

theorem isZero_narrowed (n : Number) : n.narrowed.isZero = n.isZero := by
  cases n <;> rfl

theorem isZero_congr {m n : Number} (h : m.narrowed = n.narrowed) : m.isZero = n.isZero := by
  rw [← isZero_narrowed m, h, isZero_narrowed]

theorem add_narrowed (a b : Number) : a.narrowed.add b.narrowed = a.add b := by
  cases a <;> cases b <;> rfl

/-- The difference of integers is exact, whatever their form and its own. -/
theorem exists_sub_int (a b : Int) (v w : Bool) :
    ∃ wide, (int a v).sub (int b w) = .int (a - b) wide := by
  rw [sub]
  split
  · next hkept =>
    obtain rfl : b = 0 := by simp at hkept; omega
    exact ⟨true, by rw [Int.sub_zero]⟩
  · exact ⟨false, rfl⟩

theorem sub_narrowed (a b : Number) : (a.narrowed.sub b.narrowed).narrowed = (a.sub b).narrowed := by
  cases a <;> cases b
  case int.int m v n w =>
    obtain ⟨wide, hsub⟩ := exists_sub_int m n v w
    obtain ⟨wide', hsub'⟩ := exists_sub_int m n false false
    rw [hsub, narrowed, narrowed, ofInt, ofInt, hsub']
    rfl
  all_goals rfl

theorem div_narrowed (a b : Number) : a.narrowed.div b.narrowed = a.div b := by
  rw [div, div, toFloat_narrowed, toFloat_narrowed]

theorem floorQuoRem_narrowed (a b : Number) :
    a.narrowed.floorQuoRem b.narrowed = a.floorQuoRem b := by
  cases a <;> cases b <;> rfl

end FlatScheme.Number
