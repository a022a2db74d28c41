import FlatScheme.Proofs.Reader.Tokens
import FlatScheme.Proofs.Value.Written
import FlatScheme.Reader
import Mathlib.Data.List.Forall2

/-!
What has been read can be written and read again.

`Reads cs x` says that the reader, whatever it has begun and not finished, takes the text `cs` in
front of a boundary for the expression `x`. Texts that read as expressions can be put together:
behind a quote mark, or in a row between parentheses, for the blank or the parenthesis behind each
item is a boundary.

*Legible* expressions are those with a notation: literals, names, and quotes and lists of legible
ones. They are *faithful*: the text of a legible expression reads as itself, and the text of its
datum as something with that datum, strings with a NUL in them set aside. The reader delivers
nothing else, for everything on its stack is legible at any time.
-/

namespace FlatScheme

namespace Reader

open Lexer (lex Boundary Spells WellRead IsName)
open Text (nul isBlank)

/-! ### Texts that read as expressions -/

/-- Go on reading after a token. -/
def resume (failure : Option String) : Progress → List Char → Except Stop Expr × List Char
  | .done x, rest => (.ok x, rest)
  | .more stack, rest => readFrom failure stack rest
  | .bad e, rest => (.error (.fault (.syntaxError e)), rest)

/-- Reading depends on the text only through its first token and what is left behind it. -/
theorem readFrom_eq (failure : Option String) (stack : List Frame) (cs : List Char) :
    readFrom failure stack cs =
      match lex failure cs with
      | (.ok t, rest) => resume failure (feed stack t) rest
      | (.error .finish, rest) => (.error (finish stack), rest)
      | (.error (.fault f), rest) => (.error (.fault f), rest) := by
  rw [readFrom]
  split
  · next t rest heq =>
    rw [heq]
    dsimp only
    cases feed stack t <;> rfl
  · next heq => rw [heq]
  · next heq => rw [heq]

theorem readFrom_of_lex {failure : Option String} {cs rest : List Char} {t : Token}
    (h : lex failure cs = (.ok t, rest)) (stack : List Frame) :
    readFrom failure stack cs = resume failure (feed stack t) rest := by
  rw [readFrom_eq, h]

theorem readFrom_blank {failure : Option String} {c : Char} (h : isBlank c = true)
    (stack : List Frame) (cs : List Char) :
    readFrom failure stack (c :: cs) = readFrom failure stack cs := by
  rw [readFrom_eq, readFrom_eq, Lexer.lex_blank h]

/-- Is the text `cs` read as `x` in front of every boundary, whatever has been begun? -/
def Reads (cs : List Char) (x : Expr) : Prop :=
  ∀ stack after, Boundary after →
    readFrom none stack (cs ++ after) = resume none (complete stack x) after

theorem reads_of_spells {cs : List Char} {t : Token} {x : Expr} (h : Spells cs t)
    (hfeed : ∀ stack, feed stack t = complete stack x) : Reads cs x := by
  intro stack after hafter
  rw [readFrom_of_lex (h after hafter), hfeed]

theorem Reads.quote {cs : List Char} {x : Expr} (h : Reads cs x) :
    Reads ('\x27' :: cs) (.quoted x.datum) := by
  intro stack after hafter
  rw [List.cons_append, readFrom_of_lex (Lexer.lex_quote _)]
  exact h (.quote :: stack) after hafter

/-- The rest of a list, each item behind a blank. -/
theorem readFrom_spaced {ts : List (List Char)} {xs : List Expr} (h : List.Forall₂ Reads ts xs)
    (items : List Expr) (stack : List Frame) (after : List Char) :
    readFrom none (.list items false :: stack) (spaced ts ++ ')' :: after) =
      resume none (complete stack (.list (items.reverse ++ xs))) after := by
  induction h generalizing items with
  | nil =>
    rw [List.append_nil]
    exact readFrom_of_lex (Lexer.lex_close after) _
  | @cons t x ts xs hread hrest ih =>
    have hboundary : Boundary (spaced ts ++ ')' :: after) := by
      cases ts <;> exact ⟨by decide, by decide⟩
    rw [spaced_cons, List.cons_append, List.append_assoc, readFrom_blank (by decide),
      hread _ _ hboundary]
    have hnext := ih (x :: items)
    rw [List.reverse_cons, List.append_assoc] at hnext
    exact hnext

theorem reads_parenthesized {ts : List (List Char)} {xs : List Expr}
    (h : List.Forall₂ Reads ts xs) : Reads (parenthesized ts) (.list xs) := by
  intro stack after _
  have hopen : readFrom none stack (parenthesized ts ++ after) =
      readFrom none (.list [] false :: stack) (spaced ts ++ ')' :: after) := by
    cases ts with
    | nil => exact readFrom_of_lex (Lexer.lex_open _) stack
    | cons t ts =>
      rw [parenthesized, spaced_cons, List.cons_append, List.cons_append, List.append_assoc,
        List.append_assoc, List.append_assoc, readFrom_of_lex (Lexer.lex_open _)]
      exact (readFrom_blank (by decide) _ _).symm
  rw [hopen]
  exact readFrom_spaced h [] stack after

/-! ### Faithful expressions -/

/-- An expression without a NUL in its strings. -/
def NulFree (x : Expr) : Prop := ∀ s ∈ x.strings, nul ∉ s.toList

/-- Does the text of an expression read as the expression, and the text of its datum as something
    with that datum? Nothing is asked of an expression with a NUL in its strings. -/
structure Faithful (x : Expr) : Prop where
  text : NulFree x → Reads x.text.toList x
  datum : NulFree x → ∃ y : Expr, y.datum = x.datum ∧ Reads x.datum.text.toList y

/-- An atom is written alike as an expression and as a datum. -/
theorem faithful_atom {x : Expr} (h : NulFree x → Reads x.text.toList x)
    (htext : x.datum.text = x.text) : Faithful x :=
  ⟨h, fun hnul => ⟨x, rfl, htext ▸ h hnul⟩⟩

theorem faithful_num {n : Number} (h : n.IsLiteral) : Faithful (.num n) :=
  faithful_atom (fun _ => reads_of_spells (Lexer.spells_num h) fun _ => rfl) rfl

theorem faithful_str (s : String) : Faithful (.str s) := by
  refine faithful_atom (fun hnul => ?_) rfl
  exact reads_of_spells (Lexer.spells_str (hnul s (by simp [Expr.strings]))) fun _ => rfl

theorem reads_name {x : String} (h : IsName x.toList) : Reads x.toList (.sym x) := by
  have hspells := Lexer.spells_name h
  rw [String.ofList_toList] at hspells
  exact reads_of_spells hspells fun _ => rfl

theorem faithful_sym {x : String} (h : IsName x.toList) : Faithful (.sym x) :=
  faithful_atom (fun _ => reads_name h) rfl

theorem faithful_bool (b : Bool) : Faithful (.quoted (.bool b)) :=
  faithful_atom (fun _ => reads_of_spells (Lexer.spells_bool b) fun _ => rfl) rfl

/-- A quoted expression is faithful if the expression is. Its datum, unless it is a boolean, is the
    list of the name `quote` and the datum of the expression. -/
theorem Faithful.quoted {x : Expr} (h : Faithful x) : Faithful (.quoted x.datum) := by
  by_cases hbool : ∃ b, x.datum = .bool b
  · obtain ⟨b, hb⟩ := hbool
    rw [hb]
    exact faithful_bool b
  have hne : ∀ b, x.datum ≠ .bool b := fun b heq => hbool ⟨b, heq⟩
  have hnul (hx : NulFree (.quoted x.datum)) : NulFree x := by
    rw [NulFree, Expr.strings, Expr.strings_datum] at hx
    exact hx
  constructor
  · intro hx
    obtain ⟨y, hy, hread⟩ := h.datum (hnul hx)
    rw [Expr.toList_text_quoted hne, ← hy]
    exact (hy ▸ hread).quote
  · intro hx
    obtain ⟨y, hy, hread⟩ := h.datum (hnul hx)
    have hdatum : (Expr.quoted x.datum).datum = Expr.datumList [.sym "quote", x] := by
      rw [Expr.datum_quoted hne]
      simp [Expr.datum, Expr.datumList]
    refine ⟨.list [.sym "quote", y], ?_, ?_⟩
    · rw [hdatum]
      simp [Expr.datum, Expr.datumList, hy]
    · rw [hdatum, Expr.toList_text_datumList]
      exact reads_parenthesized (.cons (reads_name Lexer.isName_quote) (.cons hread .nil))

/-- Expressions of the same data as a row of faithful ones, read from the texts of those data. -/
theorem exists_reads_data {xs : List Expr} (h : ∀ x ∈ xs, Faithful x) (hnul : ∀ x ∈ xs, NulFree x) :
    ∃ ys : List Expr, Expr.datumList ys = Expr.datumList xs ∧
      List.Forall₂ Reads (xs.map fun x => x.datum.text.toList) ys := by
  induction xs with
  | nil => exact ⟨[], rfl, .nil⟩
  | cons x xs ih =>
    obtain ⟨y, hy, hread⟩ := (h x List.mem_cons_self).datum (hnul x List.mem_cons_self)
    obtain ⟨ys, hys, hreads⟩ := ih (fun z hz => h z (List.mem_cons_of_mem _ hz))
      (fun z hz => hnul z (List.mem_cons_of_mem _ hz))
    exact ⟨y :: ys, by rw [Expr.datumList, Expr.datumList, hy, hys], .cons hread hreads⟩

theorem faithful_list {xs : List Expr} (h : ∀ x ∈ xs, Faithful x) : Faithful (.list xs) := by
  have hitems (hlist : NulFree (.list xs)) : ∀ x ∈ xs, NulFree x := by
    intro x hx s hs
    refine hlist s ?_
    rw [Expr.strings]
    exact Expr.mem_stringsOfAll.mpr ⟨x, hx, hs⟩
  constructor
  · intro hnul
    rw [Expr.toList_text_list]
    refine reads_parenthesized ?_
    rw [List.forall₂_map_left_iff, List.forall₂_same]
    exact fun x hx => (h x hx).text (hitems hnul x hx)
  · intro hnul
    obtain ⟨ys, hys, hreads⟩ := exists_reads_data h (hitems hnul)
    refine ⟨.list ys, by rw [Expr.datum, Expr.datum, hys], ?_⟩
    rw [Expr.datum, Expr.toList_text_datumList]
    exact reads_parenthesized hreads

/-- The expressions that have a notation. A quote mark stands in front of an expression, never in
    front of an arbitrary value. -/
inductive Legible : Expr → Prop
  | num {n : Number} (literal : n.IsLiteral) : Legible (.num n)
  | str (s : String) : Legible (.str s)
  | sym {x : String} (name : IsName x.toList) : Legible (.sym x)
  | bool (b : Bool) : Legible (.quoted (.bool b))
  | quoted {x : Expr} (legible : Legible x) : Legible (.quoted x.datum)
  | list {xs : List Expr} (legible : ∀ x ∈ xs, Legible x) : Legible (.list xs)

theorem Legible.faithful {x : Expr} (h : Legible x) : Faithful x := by
  induction h with
  | num literal => exact faithful_num literal
  | str s => exact faithful_str s
  | sym name => exact faithful_sym name
  | bool b => exact faithful_bool b
  | quoted _ ih => exact ih.quoted
  | list _ ih => exact faithful_list ih

/-! ### The reader delivers legible expressions -/

/-- Are all items of unfinished lists legible? -/
def Frame.Legible : Frame → Prop
  | .list items _ => ∀ x ∈ items, Reader.Legible x
  | .quote => True
  | .skip => True

/-- Is everything that a token led to legible? -/
def Progress.Legible : Progress → Prop
  | .done x => Reader.Legible x
  | .more stack => ∀ f ∈ stack, f.Legible
  | .bad _ => True

theorem owe_legible {stack : List Frame} (h : ∀ f ∈ stack, f.Legible) :
    ∀ f ∈ owe stack, f.Legible := by
  unfold owe
  split
  · rw [List.forall_mem_cons] at h ⊢
    exact h
  · exact h

theorem complete_legible {stack : List Frame} {x : Expr} (hstack : ∀ f ∈ stack, f.Legible)
    (hx : Legible x) : (complete stack x).Legible := by
  induction stack generalizing x with
  | nil => exact hx
  | cons frame stack ih =>
    obtain ⟨hframe, hrest⟩ := List.forall_mem_cons.mp hstack
    cases frame with
    | list items owed =>
      refine List.forall_mem_cons.mpr ⟨?_, hrest⟩
      exact List.forall_mem_cons.mpr ⟨hx, hframe⟩
    | quote => exact ih hrest hx.quoted
    | skip => exact owe_legible hrest

/-- One token: what was legible before it is legible after it. -/
theorem feed_legible {stack : List Frame} {t : Token} (hstack : ∀ f ∈ stack, f.Legible)
    (ht : WellRead t) : (feed stack t).Legible := by
  unfold feed
  split
  · exact List.forall_mem_cons.mpr ⟨by simp [Frame.Legible], hstack⟩
  · obtain ⟨hitems, hrest⟩ := List.forall_mem_cons.mp hstack
    refine complete_legible hrest (.list fun x hx => ?_)
    exact hitems x (List.mem_reverse.mp hx)
  · trivial
  · exact List.forall_mem_cons.mpr ⟨trivial, hstack⟩
  · exact List.forall_mem_cons.mpr ⟨trivial, hstack⟩
  · exact complete_legible hstack (.num ht)
  · exact complete_legible hstack (.str _)
  · exact complete_legible hstack (.sym ht)
  · exact complete_legible hstack (.bool _)

/-- A whole expression: what the reader delivers from a legible stack is legible. -/
theorem readFrom_legible {failure : Option String} {stack : List Frame} {cs rest : List Char}
    {x : Expr} (hstack : ∀ f ∈ stack, f.Legible) (h : readFrom failure stack cs = (.ok x, rest)) :
    Legible x := by
  fun_induction readFrom failure stack cs with
  | case1 stack cs t mid hlex y hfeed =>
    have hprogress := feed_legible hstack (Lexer.wellRead_of_lex hlex)
    rw [hfeed] at hprogress
    cases h
    exact hprogress
  | case2 stack cs t mid hlex stack' hfeed ih =>
    have hprogress := feed_legible hstack (Lexer.wellRead_of_lex hlex)
    rw [hfeed] at hprogress
    exact ih hprogress h
  | case3 => cases h
  | case4 => cases h
  | case5 => cases h

end Reader

namespace Source

open Lexer (lex lex_open lex_close lex_quote Boundary)
open Text (nul)
open Reader (Legible NulFree Reads readFrom readFrom_eq readFrom_blank readFrom_of_lex feed resume)

theorem readFrom_of_next {src rest : Source} {x : Expr} (h : src.next = (.ok x, rest)) :
    readFrom src.failure [] src.unread = (.ok x, rest.unread) := by
  unfold next at h
  split at h
  next result unread heq =>
    cases h
    exact heq

theorem next_of_readFrom {src : Source} {result : Except Stop Expr} {unread : List Char}
    (h : readFrom src.failure [] src.unread = (result, unread)) :
    src.next = (result, { src with unread := unread }) := by
  rw [next, h]

theorem readRest_eq (src : Source) (done : List Expr) :
    src.readRest done =
      match src.next with
      | (.ok x, rest) => rest.readRest (x :: done)
      | (.error .finish, _) => .ok done.reverse
      | (.error (.fault f), _) => .error f := by
  rw [readRest]
  split
  · next heq => rw [heq]
  · next heq => rw [heq]
  · next heq => rw [heq]

theorem legible_of_readRest {src : Source} {done xs : List Expr} (hdone : ∀ x ∈ done, Legible x)
    (h : src.readRest done = .ok xs) : ∀ x ∈ xs, Legible x := by
  fun_induction readRest src done with
  | case1 src done x rest hnext ih =>
    have hx : Legible x := Reader.readFrom_legible (by simp) (readFrom_of_next hnext)
    exact ih (List.forall_mem_cons.mpr ⟨hx, hdone⟩) h
  | case2 src done rest hnext =>
    cases h
    exact fun x hx => hdone x (List.mem_reverse.mp hx)
  | case3 => cases h

/-- Texts in a row, each behind a newline, are read as the row of their expressions. -/
theorem readRest_lines {xs : List Expr} (h : ∀ x ∈ xs, Reads x.text.toList x) (done : List Expr) :
    readRest ⟨xs.flatMap fun x => '\n' :: x.text.toList, none⟩ done = .ok (done.reverse ++ xs) := by
  induction xs generalizing done with
  | nil =>
    rw [List.append_nil]
    rw [readRest_eq, next_of_readFrom (readFrom_eq none [] [])]
    rfl
  | cons x xs ih =>
    obtain ⟨hx, hxs⟩ := List.forall_mem_cons.mp h
    have hboundary : Boundary (xs.flatMap fun x => '\n' :: x.text.toList) := by
      cases xs with
      | nil => trivial
      | cons y ys => exact ⟨by decide, by decide⟩
    have hread := (readFrom_blank (c := '\n') (by decide) [] _).trans (hx [] _ hboundary)
    rw [readRest_eq, next_of_readFrom hread]
    dsimp only [Reader.complete, Reader.resume]
    rw [ih hxs, List.reverse_cons, List.append_assoc]
    rfl

theorem toList_intercalate_cons (t : String) (ts : List String) :
    ("\n".intercalate (t :: ts)).toList = t.toList ++ ts.flatMap ('\n' :: ·.toList) := by
  induction ts generalizing t with
  | nil => simp
  | cons u ts ih =>
    rw [String.intercalate_cons_cons, String.toList_append, String.toList_append, ih u]
    simp

/-- A newline in front of the text changes nothing. -/
theorem readRest_newline (cs : List Char) (done : List Expr) :
    readRest ⟨'\n' :: cs, none⟩ done = readRest ⟨cs, none⟩ done := by
  have hnext : next ⟨'\n' :: cs, none⟩ = next ⟨cs, none⟩ := by
    rw [next, next, readFrom_blank (by decide)]
  rw [readRest_eq, readRest_eq, hnext]

/-- The texts of legible expressions, one to a line, are read as these expressions, if there is no
    NUL in their strings. -/
theorem readAll_text_of_legible {xs : List Expr} (h : ∀ x ∈ xs, Legible x)
    (hnul : ∀ x ∈ xs, NulFree x) :
    (ofString ("\n".intercalate (xs.map Expr.text))).readAll = .ok xs := by
  have hlines := readRest_lines (fun x hx => (h x hx).faithful.text (hnul x hx)) []
  cases xs with
  | nil => exact hlines
  | cons x xs =>
    rw [List.flatMap_cons, List.cons_append, readRest_newline] at hlines
    rw [readAll, ofString, List.map_cons, toList_intercalate_cons, List.flatMap_map]
    exact hlines

/-- Reader and printer round trip: the texts of the expressions that were read, one to a line, are
    read as the same expressions, if there is no NUL in their strings. -/
theorem readAll_text_of_readAll {src : Source} {xs : List Expr} (h : src.readAll = .ok xs)
    (hnul : ∀ x ∈ xs, ∀ s ∈ x.strings, nul ∉ s.toList) :
    (ofString ("\n".intercalate (xs.map Expr.text))).readAll = .ok xs :=
  readAll_text_of_legible (legible_of_readRest (by simp) h) hnul

/-- The source `(''-.5 "\t")`: a list of a number under two quotes and a string with an escape. -/
def sample : Source := ⟨['(', '\x27', '\x27', '-', '.', '5', ' ', '"', '\\', 't', '"', ')'], none⟩

/-- What `sample` is read as. -/
def sampleExpr : Expr :=
  .list [.quoted (.pair (.sym "quote")
    (.pair (.num (.float (.signed true ⟨0x3fe0000000000000, by decide⟩))) .nil)), .str "\t"]

theorem sample_readAll : sample.readAll = .ok [sampleExpr] := by
  have hnum : lex none ['-', '.', '5', ' ', '"', '\\', 't', '"', ')'] =
      (.ok (.num (.float (.signed true ⟨0x3fe0000000000000, by decide⟩))),
        [' ', '"', '\\', 't', '"', ')']) := by decide +kernel
  have hstr : lex none [' ', '"', '\\', 't', '"', ')'] = (.ok (.str "\t"), [')']) := by
    decide +kernel
  have hread : readFrom none [] sample.unread = (.ok sampleExpr, []) := by
    rw [sample, readFrom_of_lex (lex_open _), feed, resume, readFrom_of_lex (lex_quote _), feed,
      resume, readFrom_of_lex (lex_quote _), feed, resume, readFrom_of_lex hnum, feed]
    exact (readFrom_of_lex hstr _).trans (readFrom_of_lex (lex_close _) _)
  rw [readAll, readRest_eq, next_of_readFrom hread]
  exact readRest_lines (List.forall_mem_nil _) [sampleExpr]

/-- The sample is read, written and read again. -/
theorem sample_round_trip : sample.readAll = .ok [sampleExpr] ∧
    (ofString ("\n".intercalate ([sampleExpr].map Expr.text))).readAll = .ok [sampleExpr] :=
  ⟨sample_readAll, readAll_text_of_readAll sample_readAll
    (by simp [sampleExpr, Expr.strings, Expr.stringsOfAll, Value.strings, nul])⟩

end Source

end FlatScheme
