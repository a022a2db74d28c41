import FlatScheme.Proofs.Reader.LineEnd

/-!
What it means that a text is incomplete.

The reader calls a text *incomplete* if it stops short of an end: in a list, behind a quote mark or
a datum comment, in a block comment or in a string literal. A text is incomplete only if some more
text makes it readable; and at a line end the converse holds, so that a reader of lines may refuse
at once what is not incomplete.

A text that stops short leaves the reader paused (`readRest_cut`). From every pause there is a way
out: close the comment or the string, then give everything on the stack an empty list to be content
with (`mendable_complete`).
-/

namespace FlatScheme

namespace Source

open Lexer (Place LineEnd lexFrom lex_open lex_close)
open Reader (Frame Progress readAt readFrom readFrom_of_lex readFrom_eq_readAt feed complete owe
  resume)
open Text (nul)

/-- Can what a token led to be brought to an end, with `done` already read? -/
def Mendable (done : List Expr) (p : Progress) : Prop :=
  ∃ u, nul ∉ u ∧ ∃ xs, collect done (resume none p u) = .ok xs

theorem mendable_done (done : List Expr) (x : Expr) : Mendable done (.done x) :=
  ⟨[], List.not_mem_nil, (x :: done).reverse, readRest_nil (x :: done)⟩

/-- An empty list is a datum for whatever waits for one. -/
theorem mendable_more {done : List Expr} {stack : List Frame}
    (h : Mendable done (complete stack (.list []))) : Mendable done (.more stack) := by
  obtain ⟨u, hnul, xs, hxs⟩ := h
  refine ⟨'(' :: ')' :: u, by simpa [nul] using hnul, xs, ?_⟩
  rw [← hxs, resume, readFrom_of_lex (lex_open _), feed, resume, readFrom_of_lex (lex_close _)]
  rfl

theorem length_owe (stack : List Frame) : (owe stack).length = stack.length := by
  unfold owe
  split <;> rfl

/-- Whatever is on the stack, a datum for its top frame can be followed up. -/
theorem mendable_complete (done : List Expr) (stack : List Frame) (x : Expr) :
    Mendable done (complete stack x) := by
  -- a datum comment leaves the stack below it, changed at the top but no longer
  induction hn : stack.length using Nat.strong_induction_on generalizing stack x with
  | _ n ih =>
    match stack, hn with
    | [], _ => exact mendable_done done x
    | .list items owed :: stack, hn =>
      obtain ⟨u, hnul, xs, hxs⟩ :=
        ih stack.length (by simp [← hn]) stack (.list (x :: items).reverse) rfl
      refine ⟨')' :: u, by simpa [nul] using hnul, xs, ?_⟩
      rw [← hxs, complete, resume, readFrom_of_lex (lex_close _)]
      rfl
    | .quote :: stack, hn => exact ih stack.length (by simp [← hn]) stack (.quoted x.datum) rfl
    | .skip :: stack, hn =>
      exact mendable_more
        (ih stack.length (by simp [← hn]) (owe stack) (.list []) (length_owe stack))

/-- Wherever and with whatever stack the reader is paused, some text leads it to an end. -/
theorem exists_collect_readAt (p : Place × List Frame) (done : List Expr) :
    ∃ u, nul ∉ u ∧ ∃ xs, collect done (readAt p ('\n' :: u)) = .ok xs := by
  obtain ⟨place, stack⟩ := p
  have hcode : ∃ u, nul ∉ u ∧ ∃ xs, collect done (readAt (.code, stack) u) = .ok xs := by
    obtain ⟨u, hnul, xs, hxs⟩ := mendable_more (mendable_complete done stack (.list []))
    rw [resume, readFrom_eq_readAt] at hxs
    exact ⟨u, hnul, xs, hxs⟩
  cases place with
  | code => exact hcode
  | comment outer =>
    obtain ⟨u, hnul, xs, hxs⟩ := hcode
    suffices hclose : ∃ v, nul ∉ v ∧ lexFrom (.block outer) v = lexFrom .code u by
      obtain ⟨v, hv, heq⟩ := hclose
      refine ⟨v, hv, xs, ?_⟩
      have hlex : (Place.comment outer).lex ('\n' :: v) = Place.code.lex u := heq
      rw [readAt, hlex]
      exact hxs
    -- one closing mark for each comment
    induction outer with
    | zero => exact ⟨'|' :: '#' :: u, by simpa [nul] using hnul, rfl⟩
    | succ outer ih =>
      obtain ⟨v, hv, heq⟩ := ih
      exact ⟨'|' :: '#' :: v, by simpa [nul] using hv, heq⟩
  | string chars =>
    obtain ⟨u, hnul, xs, hxs⟩ :=
      mendable_complete done stack (.str (String.ofList ('\n' :: chars).reverse))
    exact ⟨'"' :: u, by simpa [nul] using hnul, xs, hxs⟩

/-- A text without NULs that is incomplete becomes readable with some more text. At a line end the
    converse holds: if a text can still become readable, it is incomplete. -/
theorem incomplete_iff_mendable (t : List Char) (hnul : nul ∉ t) :
    (∀ e, readAll ⟨t, none⟩ = .error (.syntaxError e) → e.isIncomplete = true →
      ∃ u, nul ∉ u ∧ ∃ xs, readAll ⟨t ++ u, none⟩ = .ok xs) ∧
    (t.getLast? = some '\n' → (∀ xs, readAll ⟨t, none⟩ ≠ .ok xs) →
      (∃ u xs, readAll ⟨t ++ u, none⟩ = .ok xs) →
      ∃ e, readAll ⟨t, none⟩ = .error (.syntaxError e) ∧ e.isIncomplete = true) := by
  constructor
  · intro e hread hincomplete
    rcases readRest_cut t [] hnul with hrefused | ⟨p, done, hpause⟩
    · obtain ⟨e', he', hread'⟩ := hrefused [] trivial
      rw [List.append_nil, ← readAll, hread] at hread'
      cases hread'
      rw [he'] at hincomplete
      cases hincomplete
    · obtain ⟨u, hu, xs, hxs⟩ := exists_collect_readAt p done
      refine ⟨'\n' :: u, by simpa [nul] using hu, xs, ?_⟩
      rw [readAll, hpause _ (.newline u), hxs]
  · rintro hlast hunread ⟨u, xs, hxs⟩
    obtain ⟨cs, rfl⟩ := List.getLast?_eq_some_iff.mp hlast
    have hcs : nul ∉ cs := fun h => hnul (List.mem_append_left _ h)
    rw [List.append_assoc, readAll] at hxs
    rcases readRest_cut cs [] hcs with hrefused | ⟨p, done, hpause⟩
    · obtain ⟨e, _, hread⟩ := hrefused _ (.newline u)
      rw [List.singleton_append, hread] at hxs
      cases hxs
    · have hself := hpause ['\n'] (.newline [])
      rcases collect_readAt_end p done (Or.inr rfl) with ⟨_, hok⟩ | ⟨e, he, herror⟩
      · exact absurd (hself.trans hok) (hunread _)
      · exact ⟨e, hself.trans herror, he⟩

/-- The line `('"`, which breaks off in a string behind a quote mark in a list. -/
def brokenOff : List Char := ['(', '\x27', '"', '\n']

theorem brokenOff_readAll :
    readAll ⟨brokenOff, none⟩ = .error (.syntaxError .unterminatedString) := by
  rw [readAll, readRest_eq_collect, brokenOff, readFrom_of_lex (lex_open _), feed, resume,
    readFrom_of_lex (Lexer.lex_quote _), feed, resume, readFrom_eq_readAt]
  rfl

/-- The broken line is incomplete, becomes readable, and hence has to be incomplete. -/
theorem brokenOff_mendable : nul ∉ brokenOff ∧
    (∃ u, nul ∉ u ∧ ∃ xs, readAll ⟨brokenOff ++ u, none⟩ = .ok xs) ∧
    ∃ e, readAll ⟨brokenOff, none⟩ = .error (.syntaxError e) ∧ e.isIncomplete = true := by
  have hnul : nul ∉ brokenOff := by decide
  obtain ⟨hmend, hincomplete⟩ := incomplete_iff_mendable brokenOff hnul
  obtain ⟨u, hu, xs, hxs⟩ := hmend _ brokenOff_readAll rfl
  refine ⟨hnul, ⟨u, hu, xs, hxs⟩, hincomplete rfl (fun ys hys => ?_) ⟨u, xs, hxs⟩⟩
  rw [brokenOff_readAll] at hys
  cases hys

end Source

end FlatScheme
