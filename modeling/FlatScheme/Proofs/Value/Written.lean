import FlatScheme.Value.Printer

/-!
Written forms as characters.

The writes of an expression are laid in front of the writes that follow, so the text of a list is
the text of its items between parentheses, with a blank in front of each but the first. The same
holds for the data that expressions denote when they are quoted, with the data of the items in their
place.

`strings` collects the strings of an expression, those inside quoted data included; quoting keeps
them.
-/

namespace FlatScheme

/-- Texts in a row, each behind a blank. -/
def spaced (ts : List (List Char)) : List Char := ts.flatMap (' ' :: ·)

theorem spaced_cons (t : List Char) (ts : List (List Char)) :
    spaced (t :: ts) = ' ' :: (t ++ spaced ts) := rfl

/-- Texts between parentheses, separated by blanks. -/
def parenthesized : List (List Char) → List Char
  | [] => ['(', ')']
  | t :: ts => '(' :: (t ++ (spaced ts ++ [')']))

/-- The characters of a row of writes. -/
def chars (ws : List String) : List Char := ws.flatMap String.toList

theorem chars_cons (w : String) (ws : List String) : chars (w :: ws) = w.toList ++ chars ws := rfl

namespace Value

theorem toList_text (v : Value) : v.text.toList = chars (v.writesBefore []) := String.toList_join

mutual

theorem chars_writesBefore : ∀ (v : Value) (after : List String),
    chars (v.writesBefore after) = v.text.toList ++ chars after
  | .pair car cdr, after => by
    rw [toList_text, writesBefore, writesBefore, chars_cons, chars_cons, chars_writesBefore car,
      chars_writesBefore car, chars_tailWrites cdr after, List.append_assoc, List.append_assoc]
  | .nil, after | .emptyPair, after | .num n, after | .str s, after | .sym x, after | .bool b, after
  | .prim p, after | .broken i x r, after | .closure i e ps b, after => by
    simp [toList_text, writesBefore, chars]

theorem chars_tailWrites : ∀ (v : Value) (after : List String),
    chars (v.tailWrites after) = chars (v.tailWrites []) ++ chars after
  | .pair car cdr, after => by
    rw [tailWrites, tailWrites, chars_cons, chars_cons, chars_writesBefore car,
      chars_writesBefore car, chars_tailWrites cdr after, List.append_assoc, List.append_assoc]
  | .nil, after | .emptyPair, after | .num n, after | .str s, after | .sym x, after | .bool b, after
  | .prim p, after | .broken i x r, after | .closure i e ps b, after => by
    simp [tailWrites, chars]

end

end Value

namespace Expr

theorem toList_text (x : Expr) : x.text.toList = chars (x.writesBefore []) := String.toList_join

theorem writesBefore_quoted {d : Value} (h : ∀ b, d ≠ .bool b) (after : List String) :
    (quoted d).writesBefore after = "'" :: d.writesBefore after := by
  rw [writesBefore]
  exact h

theorem toList_text_quoted {d : Value} (h : ∀ b, d ≠ .bool b) :
    (quoted d).text.toList = '\x27' :: d.text.toList := by
  rw [toList_text, writesBefore_quoted h, Value.toList_text]
  rfl

mutual

theorem chars_writesBefore : ∀ (x : Expr) (after : List String),
    chars (x.writesBefore after) = x.text.toList ++ chars after
  | .quoted d, after => by
    by_cases h : ∃ b, d = .bool b
    · obtain ⟨b, rfl⟩ := h
      simp [toList_text, writesBefore, chars]
    · have hne : ∀ b, d ≠ .bool b := fun b heq => h ⟨b, heq⟩
      rw [writesBefore_quoted hne, toList_text_quoted hne, chars_cons, Value.chars_writesBefore]
      rfl
  | .list (x :: xs), after => by
    rw [toList_text, writesBefore, writesBefore, chars_cons, chars_cons, chars_writesBefore x,
      chars_writesBefore x, chars_restWrites xs after, chars_restWrites xs []]
    simp [chars]
  | .absent, after | .num n, after | .str s, after | .sym x, after | .list [], after => by
    simp [toList_text, writesBefore, chars]

theorem chars_restWrites : ∀ (xs : List Expr) (after : List String),
    chars (restWrites xs after) = spaced (xs.map fun x => x.text.toList) ++ ')' :: chars after
  | [], after => by
    rw [restWrites, chars_cons]
    rfl
  | x :: xs, after => by
    rw [restWrites, chars_cons, chars_writesBefore x, chars_restWrites xs after]
    simp [spaced]

end

/-! ### Lists -/

theorem toList_text_list (xs : List Expr) :
    (list xs).text.toList = parenthesized (xs.map fun x => x.text.toList) := by
  cases xs with
  | nil => rfl
  | cons x xs =>
    rw [toList_text, writesBefore, chars_cons, chars_writesBefore, chars_restWrites]
    rfl

theorem chars_tailWrites_datumList (xs : List Expr) :
    chars ((datumList xs).tailWrites []) =
      spaced (xs.map fun x => x.datum.text.toList) ++ [')'] := by
  induction xs with
  | nil =>
    rw [datumList, Value.tailWrites]
    rfl
  | cons x xs ih =>
    rw [datumList, Value.tailWrites, chars_cons, Value.chars_writesBefore, ih]
    simp [spaced]

theorem toList_text_datumList (xs : List Expr) :
    (datumList xs).text.toList = parenthesized (xs.map fun x => x.datum.text.toList) := by
  cases xs with
  | nil => rfl
  | cons x xs =>
    rw [datumList, Value.toList_text, Value.writesBefore, chars_cons, Value.chars_writesBefore,
      chars_tailWrites_datumList]
    rfl

end Expr

/-! ### Strings -/

/-- The strings among the data of a value. -/
def Value.strings : Value → List String
  | .str s => [s]
  | .pair car cdr => car.strings ++ cdr.strings
  | _ => []

namespace Expr

mutual

/-- The strings of an expression, those of quoted data included. -/
def strings : Expr → List String
  | .str s => [s]
  | .quoted d => d.strings
  | .list xs => stringsOfAll xs
  | _ => []

/-- The strings of all expressions of a list. -/
def stringsOfAll : List Expr → List String
  | [] => []
  | x :: xs => strings x ++ stringsOfAll xs

end

theorem datum_quoted {d : Value} (h : ∀ b, d ≠ .bool b) :
    (quoted d).datum = .pair (.sym "quote") (.pair d .nil) := by
  rw [datum]
  exact h

mutual

/-- Quoting an expression keeps its strings. -/
theorem strings_datum : ∀ x : Expr, x.datum.strings = x.strings
  | .quoted d => by
    by_cases h : ∃ b, d = .bool b
    · obtain ⟨b, rfl⟩ := h
      simp [datum, strings]
    · have hne : ∀ b, d ≠ .bool b := fun b heq => h ⟨b, heq⟩
      simp [datum_quoted hne, strings, Value.strings]
  | .list xs => by rw [datum, strings, strings_datumList xs]
  | .absent | .num n | .str s | .sym x => by simp [datum, strings, Value.strings]

theorem strings_datumList : ∀ xs : List Expr, (datumList xs).strings = stringsOfAll xs
  | [] => by simp [datumList, stringsOfAll, Value.strings]
  | x :: xs => by rw [datumList, Value.strings, stringsOfAll, strings_datum x, strings_datumList xs]

end

theorem mem_stringsOfAll {s : String} {xs : List Expr} :
    s ∈ stringsOfAll xs ↔ ∃ x ∈ xs, s ∈ x.strings := by
  induction xs with
  | nil => simp [stringsOfAll]
  | cons x xs ih => simp [stringsOfAll, ih]

end Expr

end FlatScheme
