import FlatScheme.Value

/-!
Tables: finite maps from names to values, the contents of one environment.

A table is kept as a list of entries in strictly increasing order of their names, so a name has at
most one entry, the names come out sorted, and two tables with the same bindings are the same table.
-/

namespace FlatScheme

/-- Put a value at its place among sorted entries, over an older value of the same name. -/
def insertEntry (x : String) (v : Value) : List (String × Value) → List (String × Value)
  | [] => [(x, v)]
  | (y, w) :: rest =>
    if x = y then (x, v) :: rest
    else if x < y then (x, v) :: (y, w) :: rest
    else (y, w) :: insertEntry x v rest

/-- An entry of the result is the new one or an old one. -/
theorem mem_insertEntry {x : String} {v : Value} {p : String × Value} :
    ∀ {entries : List (String × Value)}, p ∈ insertEntry x v entries → p = (x, v) ∨ p ∈ entries
  | [], h => Or.inl (by simpa [insertEntry] using h)
  | (y, w) :: rest, h => by
    unfold insertEntry at h
    split at h
    · rcases List.mem_cons.mp h with h | h
      · exact Or.inl h
      · exact Or.inr (List.mem_cons_of_mem _ h)
    · split at h
      · exact List.mem_cons.mp h
      · rcases List.mem_cons.mp h with h | h
        · exact Or.inr (h ▸ List.mem_cons_self)
        · exact (mem_insertEntry h).imp id (List.mem_cons_of_mem _)

/-- Entries in strictly increasing order of names. -/
def SortedByName (entries : List (String × Value)) : Prop :=
  entries.Pairwise fun p q => p.1 < q.1

theorem sortedByName_insertEntry (x : String) (v : Value) :
    ∀ {entries : List (String × Value)}, SortedByName entries → SortedByName (insertEntry x v entries)
  | [], _ => by simp [insertEntry, SortedByName]
  | (y, w) :: rest, h => by
    obtain ⟨first, sorted⟩ := List.pairwise_cons.mp h
    unfold insertEntry
    split
    · next heq => exact List.pairwise_cons.mpr ⟨fun q hq => heq ▸ first q hq, sorted⟩
    · next hne =>
      split
      · next hlt =>
        refine List.pairwise_cons.mpr ⟨fun q hq => ?_, h⟩
        rcases List.mem_cons.mp hq with rfl | hq
        · exact hlt
        · exact String.lt_trans hlt (first q hq)
      · next hnlt =>
        have hgt : y < x := Std.lt_of_le_of_ne (String.not_lt.mp hnlt) (Ne.symm hne)
        refine List.pairwise_cons.mpr ⟨fun q hq => ?_, sortedByName_insertEntry x v sorted⟩
        rcases mem_insertEntry hq with rfl | hq
        · exact hgt
        · exact first q hq

/-- Looking up behind an insertion: the new value at its name, the old answer at any other. -/
theorem lookup_insertEntry (x : String) (v : Value) (y : String) :
    ∀ entries : List (String × Value),
      (insertEntry x v entries).lookup y = if y = x then some v else entries.lookup y
  | [] => by grind [insertEntry]
  | (z, w) :: rest => by
    have ih := lookup_insertEntry x v y rest
    grind [insertEntry]

/-- A name below those of all entries is bound by none of them. -/
theorem lookup_eq_none_of_forall_lt {x : String} {entries : List (String × Value)}
    (h : ∀ p ∈ entries, x < p.1) : entries.lookup x = none := by
  rw [List.lookup_eq_none_iff]
  intro p hp
  have hne : x ≠ p.1 := fun heq => String.lt_irrefl x (heq ▸ h p hp)
  simpa using hne

/-- Sorted entries are determined by what they bind. -/
theorem eq_of_lookup_eq : ∀ {xs ys : List (String × Value)}, SortedByName xs → SortedByName ys →
    (∀ x, xs.lookup x = ys.lookup x) → xs = ys
  | [], [], _, _, _ => rfl
  | [], (y, w) :: _, _, _, h => by simpa using h y
  | (x, v) :: _, [], _, _, h => by simpa using h x
  | (x, v) :: xs, (y, w) :: ys, hxs, hys, h => by
    obtain ⟨hx, hxs'⟩ := List.pairwise_cons.mp hxs
    obtain ⟨hy, hys'⟩ := List.pairwise_cons.mp hys
    -- the least name of either side is bound on the other, so it is the least there too
    have hyx : ¬ x < y := by
      intro hlt
      have hnone : ((y, w) :: ys).lookup x = none := lookup_eq_none_of_forall_lt
        (List.forall_mem_cons.mpr ⟨hlt, fun p hp => String.lt_trans hlt (hy p hp)⟩)
      rw [← h x, List.lookup_cons_self] at hnone
      cases hnone
    have hxy : ¬ y < x := by
      intro hlt
      have hnone : ((x, v) :: xs).lookup y = none := lookup_eq_none_of_forall_lt
        (List.forall_mem_cons.mpr ⟨hlt, fun p hp => String.lt_trans hlt (hx p hp)⟩)
      rw [h y, List.lookup_cons_self] at hnone
      cases hnone
    obtain rfl : x = y := String.le_antisymm (String.not_lt.mp hxy) (String.not_lt.mp hyx)
    obtain rfl : v = w := by simpa using h x
    have hrest : xs = ys := by
      refine eq_of_lookup_eq hxs' hys' fun z => ?_
      by_cases hz : z = x
      · rw [hz, lookup_eq_none_of_forall_lt hx, lookup_eq_none_of_forall_lt hy]
      · have hz' : (z == x) = false := by simpa using hz
        simpa only [List.lookup_cons, hz'] using h z
    rw [hrest]

/-- A finite map from names to values. -/
structure Table where
  entries : List (String × Value)
  sorted : SortedByName entries

namespace Table

def empty : Table := ⟨[], List.Pairwise.nil⟩

instance : Inhabited Table := ⟨empty⟩

/-- The value of a name, if it is bound. -/
def get? (t : Table) (x : String) : Option Value := t.entries.lookup x

/-- Bind a name, replacing any older binding. -/
def insert (t : Table) (x : String) (v : Value) : Table :=
  ⟨insertEntry x v t.entries, sortedByName_insertEntry x v t.sorted⟩

@[simp] theorem get?_empty (x : String) : empty.get? x = none := rfl

@[simp] theorem get?_insert (t : Table) (x : String) (v : Value) (y : String) :
    (t.insert x v).get? y = if y = x then some v else t.get? y :=
  lookup_insertEntry x v y t.entries

/-- Tables with the same bindings are the same table. -/
theorem ext_get? {t u : Table} (h : ∀ x, t.get? x = u.get? x) : t = u := by
  obtain ⟨xs, hxs⟩ := t
  obtain ⟨ys, hys⟩ := u
  obtain rfl : xs = ys := eq_of_lookup_eq hxs hys h
  rfl

/-- Bind names to values one after the other; names or values in excess are ignored. -/
def insertAll (t : Table) (names : List String) (values : List Value) : Table :=
  (names.zip values).foldl (fun t p => t.insert p.1 p.2) t

/-- The bound names, in increasing order. -/
def names (t : Table) : List String := t.entries.map (·.1)

/-- Every primitive under its own name. -/
def primitives : Table := Primitive.all.foldl (fun t p => t.insert p.name (.prim p)) empty

theorem get?_primitives (p : Primitive) : primitives.get? p.name = some (.prim p) := by
  cases p <;> simp [primitives, Primitive.all, Primitive.name]

end Table

end FlatScheme
