import FlatScheme.Proofs.Primitive.Congruence
import FlatScheme.Proofs.Value.Equality
import FlatScheme.Proofs.Value.Written

/-!
The two empty lists cannot be told apart.

Values that differ only in which empty list stands where, at the top, as an element or as a tail, are
written alike, have the same truth value and the same kind, are equal to the same values, and have
elements that differ in no other way. That is all that primitives ask of lists, so primitives have
the same results and faults with them (`empty_lists_indistinguishable`). The writes of such values do
differ, for one of the two empty lists is written in two pieces; it is their text that does not.
-/

namespace FlatScheme

namespace Value

/-- The same value, but for which of the two empty lists stands at each place of one. -/
inductive UpToEmpty : Value → Value → Prop
  | empty {v w : Value} (hv : v.isEmpty = true) (hw : w.isEmpty = true) : UpToEmpty v w
  | pair {a a' d d' : Value} (car : UpToEmpty a a') (cdr : UpToEmpty d d') :
      UpToEmpty (.pair a d) (.pair a' d')
  | same (v : Value) : UpToEmpty v v

theorem eq_or_eq_of_isEmpty {v : Value} (h : v.isEmpty = true) : v = .nil ∨ v = .emptyPair := by
  cases v with
  | nil => exact .inl rfl
  | emptyPair => exact .inr rfl
  | _ => cases h

namespace UpToEmpty

variable {v v' w w' : Value}

theorem symm (h : v.UpToEmpty w) : w.UpToEmpty v := by
  induction h with
  | empty hv hw => exact .empty hw hv
  | pair _ _ ihcar ihcdr => exact .pair ihcar ihcdr
  | same v => exact .same v

/-! ### What is written -/

/-- The text, and the characters of what is written where the value is a tail. -/
theorem written_eq (h : v.UpToEmpty w) :
    v.text = w.text ∧ ∀ after, chars (v.tailWrites after) = chars (w.tailWrites after) := by
  induction h with
  | empty hv hw =>
    obtain rfl | rfl := eq_or_eq_of_isEmpty hv <;> obtain rfl | rfl := eq_or_eq_of_isEmpty hw <;>
      exact ⟨rfl, fun _ => rfl⟩
  | pair _ _ ihcar ihcdr =>
    refine ⟨String.toList_injective ?_, fun after => ?_⟩
    · rw [toList_text, toList_text, writesBefore, writesBefore, chars_cons, chars_cons,
        chars_writesBefore, chars_writesBefore, ihcar.1, ihcdr.2]
    · rw [tailWrites, tailWrites, chars_cons, chars_cons, chars_writesBefore, chars_writesBefore,
        ihcar.1, ihcdr.2]
  | same v => exact ⟨rfl, fun _ => rfl⟩

theorem text_eq (h : v.UpToEmpty w) : v.text = w.text := h.written_eq.1

/-! ### What values are asked for -/

theorem isTrue_eq (h : v.UpToEmpty w) : v.isTrue = w.isTrue := by
  cases h with
  | empty hv hw =>
    obtain rfl | rfl := eq_or_eq_of_isEmpty hv <;> obtain rfl | rfl := eq_or_eq_of_isEmpty hw <;> rfl
  | pair | same => rfl

theorem kind_eq (h : v.UpToEmpty w) : v.kind = w.kind := by
  cases h with
  | empty hv hw =>
    obtain rfl | rfl := eq_or_eq_of_isEmpty hv <;> obtain rfl | rfl := eq_or_eq_of_isEmpty hw <;> rfl
  | pair | same => rfl

theorem elements_rel (h : v.UpToEmpty w) : List.Forall₂ UpToEmpty v.elements w.elements := by
  induction h with
  | empty hv hw =>
    obtain rfl | rfl := eq_or_eq_of_isEmpty hv <;> obtain rfl | rfl := eq_or_eq_of_isEmpty hw <;>
      exact .nil
  | pair car _ _ ihcdr => exact .cons car ihcdr
  | same v => exact List.forall₂_same.mpr fun u _ => .same u

/-! ### Equality -/

theorem equal_of_isEmpty (h : v.isEmpty = true) (u : Value) : v.equal u = u.isEmpty := by
  obtain rfl | rfl := eq_or_eq_of_isEmpty h <;> rfl

theorem equal_left (h : v.UpToEmpty w) (u : Value) : v.equal u = w.equal u := by
  induction h generalizing u with
  | empty hv hw => rw [equal_of_isEmpty hv, equal_of_isEmpty hw]
  | pair _ _ ihcar ihcdr =>
    cases u with
    | pair a d => rw [equal, equal, ihcar, ihcdr]
    | _ => rfl
  | same v => rfl

theorem equal_right (h : v.UpToEmpty w) (u : Value) : u.equal v = u.equal w := by
  rw [equal_comm u v, equal_comm u w, h.equal_left]

/-- A value equals one that differs in its empty lists only just if there is no NaN in it. -/
theorem equal_iff_no_nan (h : v.UpToEmpty w) :
    v.equal w = true ↔ ∀ n ∈ v.numbers, n.isNaN = false := by
  rw [← h.equal_right v, equal_self]

end UpToEmpty

end Value

/-! ### Primitives -/

open Value (UpToEmpty)

theorem upToEmpty_indistinct : Indistinct Eq UpToEmpty where
  kind h := h.kind_eq
  isTrue h := h.isTrue_eq
  equal hv hw := (hv.equal_left _).trans (hw.equal_right _)
  str h := by
    cases h with
    | empty hv => cases hv
    | same => rfl
  bool h := by
    cases h with
    | empty hv => cases hv
    | same => rfl
  num {m _} h := by
    cases h with
    | empty hv => cases hv
    | same => exact ⟨m, rfl, rfl⟩

/-- The two empty lists are indistinguishable. Values that differ only in their empty lists have the
    same text and the same truth value, are equal to the same values, and to each other just if there
    is no NaN in them, and have as many elements, which differ in no other way. Primitives have the
    same fault or the same result with arguments that differ only in their empty lists. -/
theorem empty_lists_indistinguishable {v w : Value} (h : v.UpToEmpty w) {args args' : List Value}
    (hargs : List.Forall₂ UpToEmpty args args') :
    v.text = w.text ∧ v.isTrue = w.isTrue ∧
      (∀ u, v.equal u = w.equal u ∧ u.equal v = u.equal w) ∧
      (v.equal w = true ↔ ∀ n ∈ v.numbers, n.isNaN = false) ∧
      List.Forall₂ UpToEmpty v.elements w.elements ∧
      ∀ p : Primitive, p.apply args = p.apply args' := by
  refine ⟨h.text_eq, h.isTrue_eq, fun u => ⟨h.equal_left u, h.equal_right u⟩, h.equal_iff_no_nan,
    h.elements_rel, fun p => ?_⟩
  exact Primitive.apply_congr upToEmpty_indistinct p hargs

/-- The list of an empty list and two, which ends in an empty list itself, and the same list with the
    other kind of empty list in either place. -/
theorem nested_empty_lists_indistinguishable :
    UpToEmpty (.pair .nil (.pair (.num (.ofInt 2)) .emptyPair))
        (.pair .emptyPair (.pair (.num (.ofInt 2)) .nil)) ∧
      (Value.pair .nil (.pair (.num (.ofInt 2)) .emptyPair)).text =
        (Value.pair .emptyPair (.pair (.num (.ofInt 2)) .nil)).text ∧
      Primitive.notEqual.apply [.pair .nil (.pair (.num (.ofInt 2)) .emptyPair), .emptyPair] =
        Primitive.notEqual.apply [.pair .emptyPair (.pair (.num (.ofInt 2)) .nil), .nil] := by
  have hempty : UpToEmpty .nil .emptyPair := .empty rfl rfl
  have hlist : UpToEmpty (.pair .nil (.pair (.num (.ofInt 2)) .emptyPair))
      (.pair .emptyPair (.pair (.num (.ofInt 2)) .nil)) :=
    .pair hempty (.pair (.same _) hempty.symm)
  obtain ⟨htext, -, -, -, -, hprimitives⟩ :=
    empty_lists_indistinguishable hlist (.cons hlist (.cons hempty.symm .nil))
  exact ⟨hlist, htext, hprimitives .notEqual⟩

end FlatScheme
