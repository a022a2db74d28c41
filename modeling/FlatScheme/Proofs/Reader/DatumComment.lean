import FlatScheme.Proofs.Reader.Between

/-!
Datum comments between the tokens of a text.

A datum comment changes the stack of the reader in one thing: a list on top of it is owed an item
from then on. Whether a list *below* the top is owed one never matters (`feed_shed`), for the datum
on top of it settles that. So in front of any token but a closing parenthesis a datum comment
changes nothing. In front of a closing parenthesis the debt is noticed, and the text is refused.

The argument is on rows of tokens, which `assemble` reads as `readAll` reads a text. The tokens of
a text with a comment in it are those of the text with those of the comment among them, by the
theory of places between tokens.
-/

namespace FlatScheme

namespace Reader

open Lexer (lex tokens tokens_of_lex tokens_of_stop lex_token_length Lexes Gap Between)

/-! ### All expressions of a row of tokens -/

/-- All expressions of a row of tokens with `stop` behind it, from a stack of things begun on and
    behind the expressions `done`, which are kept in reverse. -/
def assemble (stop : Stop) : List Frame → List Expr → List Token → Except Fault (List Expr)
  | stack, done, [] =>
    match stop with
    | .fault f => .error f
    | .finish =>
      match finish stack with
      | .finish => .ok done.reverse
      | .fault f => .error f
  | stack, done, t :: ts =>
    match feed stack t with
    | .done x => assemble stop [] (x :: done) ts
    | .more stack' => assemble stop stack' done ts
    | .bad e => .error (.syntaxError e)

/-- What becomes of a row of tokens whose first ones have led to `p`. -/
def assembleFrom (stop : Stop) (done : List Expr) (p : Progress) (ts : List Token) :
    Except Fault (List Expr) :=
  match p with
  | .done x => assemble stop [] (x :: done) ts
  | .more stack => assemble stop stack done ts
  | .bad e => .error (.syntaxError e)

theorem assemble_cons (stop : Stop) (stack : List Frame) (done : List Expr) (t : Token)
    (ts : List Token) :
    assemble stop stack done (t :: ts) = assembleFrom stop done (feed stack t) ts := by
  rw [assemble]
  cases feed stack t <;> rfl

/-- Assembling is feeding, as often as there is something left over. -/
theorem assemble_eq_feedAll (stop : Stop) (stack : List Frame) (done : List Expr)
    (ts : List Token) : assemble stop stack done ts =
      assembleFrom stop done (feedAll stack ts).1 (feedAll stack ts).2 := by
  induction ts generalizing stack with
  | nil => rfl
  | cons t ts ih =>
    rw [assemble_cons, feedAll_cons]
    cases feed stack t with
    | done x => rfl
    | more stack' => exact ih stack'
    | bad e => rfl

/-- A word is assembled to what it derives. -/
theorem Derives.assemble {w : List Token} {y : Expr} (h : Derives w y) (stop : Stop)
    (stack : List Frame) (done : List Expr) (ts : List Token) :
    assemble stop stack done (w ++ ts) = assembleFrom stop done (complete stack y) ts := by
  rw [assemble_eq_feedAll, h.feedAll]
  cases complete stack y with
  | done x => rfl
  | more stack' => exact (assemble_eq_feedAll stop stack' done ts).symm
  | bad e => rfl

/-! ### Debts below the top of the stack -/

/-- A frame without its debt. -/
def Frame.settled : Frame → Frame
  | .list items _ => .list items false
  | frame => frame

/-- A stack without the debts below its top. -/
def shed : List Frame → List Frame
  | [] => []
  | frame :: stack => frame :: stack.map Frame.settled

/-- What a token led to, without the debts below the top of the stack. -/
def Progress.shed : Progress → Progress
  | .more stack => .more (Reader.shed stack)
  | p => p

theorem map_settled_settled (stack : List Frame) :
    (stack.map Frame.settled).map Frame.settled = stack.map Frame.settled := by
  rw [List.map_map]
  refine List.map_congr_left fun frame _ => ?_
  cases frame <;> rfl

theorem settled_owe (stack : List Frame) :
    (owe stack).map Frame.settled = stack.map Frame.settled := by
  rcases stack with _ | ⟨_ | _ | _, stack⟩ <;> rfl

theorem shed_owe_settled (stack : List Frame) :
    shed (owe (stack.map Frame.settled)) = shed (owe stack) := by
  rcases stack with _ | ⟨_ | _ | _, stack⟩
  · rfl
  all_goals exact congrArg (_ :: ·) (map_settled_settled stack)

/-- A datum settles the debt of the list that it goes to, and sees no other. -/
theorem complete_settled (stack : List Frame) (x : Expr) :
    (complete (stack.map Frame.settled) x).shed = (complete stack x).shed := by
  induction stack generalizing x with
  | nil => rfl
  | cons frame stack ih =>
    cases frame with
    | list items owed => exact congrArg (Progress.more <| _ :: ·) (map_settled_settled stack)
    | quote => exact ih (.quoted x.datum)
    | skip => exact congrArg Progress.more (shed_owe_settled stack)

theorem complete_shed (stack : List Frame) (x : Expr) :
    (complete (shed stack) x).shed = (complete stack x).shed := by
  rcases stack with _ | ⟨_ | _ | _, stack⟩
  · rfl
  · exact congrArg (Progress.more <| _ :: ·) (map_settled_settled stack)
  · exact complete_settled stack (.quoted x.datum)
  · exact congrArg Progress.more (shed_owe_settled stack)

theorem settled_shed (stack : List Frame) :
    (shed stack).map Frame.settled = stack.map Frame.settled := by
  cases stack with
  | nil => rfl
  | cons frame stack => exact congrArg (_ :: ·) (map_settled_settled stack)

/-- A token sees no debt below the top of the stack. -/
theorem feed_shed (stack : List Frame) (t : Token) :
    (feed (shed stack) t).shed = (feed stack t).shed := by
  cases t with
  | «open» | quote | skip => exact congrArg (Progress.more <| _ :: ·) (settled_shed stack)
  | num | str | sym | bool => exact complete_shed stack _
  | close =>
    rcases stack with _ | ⟨⟨items, _ | _⟩ | _ | _, stack⟩
    · rfl
    · exact complete_settled stack (.list items.reverse)
    all_goals rfl

/-- A debt on top of the stack is seen by a closing parenthesis only. -/
theorem feed_owe (stack : List Frame) {t : Token} (h : t ≠ .close) :
    (feed (owe stack) t).shed = (feed stack t).shed := by
  cases t with
  | «open» | quote | skip => exact congrArg (Progress.more <| _ :: ·) (settled_owe stack)
  | num | str | sym | bool => exact congrArg Progress.shed (complete_owe stack _)
  | close => exact absurd rfl h

/-- What is assembled does not depend on the debts below the top of the stack. -/
theorem assembleFrom_shed (stop : Stop) (done : List Expr) (p : Progress) (ts : List Token) :
    assembleFrom stop done p.shed ts = assembleFrom stop done p ts := by
  induction ts generalizing p done with
  | nil =>
    rcases p with _ | (_ | ⟨⟨_, _ | _⟩ | _ | _, _⟩) | _ <;> rfl
  | cons t ts ih =>
    cases p with
    | done x => rfl
    | bad e => rfl
    | more stack =>
      rw [Progress.shed, assembleFrom, assembleFrom, assemble_cons, assemble_cons, ← ih, feed_shed,
        ih]

/-! ### Datum comments among tokens -/

/-- A datum comment leaves its mark on a list on top of the stack, and nothing else. -/
theorem assemble_skip {w : List Token} {y : Expr} (h : Derives w y) (stop : Stop)
    (stack : List Frame) (done : List Expr) (ts : List Token) :
    assemble stop stack done (.skip :: (w ++ ts)) = assemble stop (owe stack) done ts := by
  rw [assemble_cons]
  exact h.assemble stop (.skip :: stack) done ts

/-- A datum comment among tokens that can be read: it changes nothing, except in front of a closing
    parenthesis, which is then out of place. -/
theorem assemble_insert {w : List Token} {y : Expr} (h : Derives w y) {stop : Stop}
    {stack : List Frame} {done xs : List Expr} {ts us : List Token}
    (hread : assemble stop stack done (ts ++ us) = .ok xs) :
    assemble stop stack done (ts ++ .skip :: (w ++ us)) =
      if us.head? = some .close then .error (.syntaxError .unexpectedClose) else .ok xs := by
  induction ts generalizing stack done with
  | nil =>
    rw [List.nil_append] at hread ⊢
    rw [assemble_skip h]
    cases us with
    | nil =>
      -- the tokens end here, so nothing has been begun
      cases stack with
      | nil => exact hread
      | cons frame stack =>
        rcases frame with ⟨_, _ | _⟩ | _ | _ <;> cases stop <;> cases hread
    | cons t us =>
      rw [assemble_cons] at hread ⊢
      by_cases ht : t = .close
      · rw [if_pos (by rw [ht]; rfl)]
        subst ht
        -- a list without a debt is on top, for nothing else can be closed
        rcases stack with _ | ⟨⟨items, _ | _⟩ | _ | _, stack⟩
        · cases hread
        · rfl
        all_goals cases hread
      · rw [if_neg (by simpa using ht), ← assembleFrom_shed, feed_owe stack ht, assembleFrom_shed,
          hread]
  | cons t ts ih =>
    rw [List.cons_append, assemble_cons] at hread ⊢
    cases hfeed : feed stack t with
    | done x =>
      rw [hfeed] at hread
      exact ih hread
    | more stack' =>
      rw [hfeed] at hread
      exact ih hread
    | bad e =>
      rw [hfeed] at hread
      cases hread

/-! ### Whole texts -/

/-- All expressions of a text are those of its tokens. -/
theorem collect_readFrom (stack : List Frame) (done : List Expr) (cs : List Char) :
    Source.collect done (readFrom none stack cs) =
      assemble (tokens none cs).2 stack done (tokens none cs).1 := by
  induction hn : cs.length using Nat.strong_induction_on generalizing cs stack done with
  | _ n ih =>
    rcases hlex : lex none cs with ⟨(_ | f) | t, rest⟩
    · rw [readFrom_eq, hlex, tokens_of_stop hlex, assemble]
      dsimp only
      cases finish stack <;> rfl
    · rw [readFrom_eq, hlex, tokens_of_stop hlex]
      rfl
    · have hshorter : rest.length < n := hn ▸ lex_token_length hlex
      rw [readFrom_of_lex hlex, tokens_of_lex hlex, assemble_cons]
      cases feed stack t with
      | done x =>
        rw [resume, Source.collect, Source.readRest_eq_collect]
        exact ih rest.length hshorter [] (x :: done) rest rfl
      | more stack' => exact ih rest.length hshorter stack' done rest rfl
      | bad e => rfl

/-- The tokens of an expression that was read. -/
theorem exists_lexes_of_readFrom {stack : List Frame} {cs rest : List Char} {x : Expr}
    (h : readFrom none stack cs = (.ok x, rest)) :
    ∃ w, Lexes cs w rest ∧ feedAll stack w = (.done x, []) := by
  fun_induction readFrom none stack cs with
  | case1 stack cs t mid hlex y hfeed =>
    cases h
    exact ⟨[t], .cons hlex (.nil _), by rw [feedAll_cons, hfeed]; rfl⟩
  | case2 stack cs t mid hlex stack' hfeed ih =>
    obtain ⟨w, hw, hfeedAll⟩ := ih h
    exact ⟨t :: w, .cons hlex hw, by rw [feedAll_cons, hfeed]; exact hfeedAll⟩
  | case3 | case4 | case5 => cases h

theorem assemble_fault (f : Fault) (stack : List Frame) (done xs : List Expr) (ts : List Token) :
    assemble (.fault f) stack done ts ≠ .ok xs := by
  induction ts generalizing stack done with
  | nil => exact nofun
  | cons t ts ih =>
    rw [assemble_cons]
    cases feed stack t with
    | done x => exact ih [] (x :: done)
    | more stack' => exact ih stack' done
    | bad e => exact nofun

end Reader

namespace Lexer

theorem head?_tokens (cs : List Char) (t : Token) :
    (tokens none cs).1.head? = some t ↔ (lex none cs).1 = .ok t := by
  rcases hlex : lex none cs with ⟨stop | u, rest⟩
  · simp [tokens_of_stop hlex]
  · simp [tokens_of_lex hlex]

theorem boundary_blank (cs : List Char) : Boundary (' ' :: cs) := ⟨by decide, by decide⟩

/-- The tokens of a datum comment between two blanks, and of what follows. -/
theorem tokens_comment {d g : List Char} {ts : List Token} (h : Lexes d ts g) (hg : Gap g)
    (q : List Char) : tokens none (' ' :: '#' :: ';' :: (d ++ ' ' :: q)) =
      (.skip :: (ts ++ (tokens none q).1), (tokens none q).2) := by
  have hmark : ∀ rest, lex none (' ' :: '#' :: ';' :: rest) = (.ok .skip, rest) := fun _ => rfl
  have hend : Lexes (d ++ []) ts (g ++ []) := by simpa using h
  have hblank : tokens none (' ' :: q) = tokens none q := tokens_congr (lex_blank (by decide) q)
  rw [tokens_of_lex (hmark _), (hend.local (boundary_blank q)).tokens, hg.tokens, hblank]

end Lexer

namespace Source

open Lexer (lex Between Gap)
open Reader (Derives assemble)
open Text (nul)

theorem readAll_eq_assemble (cs : List Char) : readAll ⟨cs, none⟩ =
    assemble (Lexer.tokens none cs).2 [] [] (Lexer.tokens none cs).1 := by
  rw [readAll, readRest_eq_collect, Reader.collect_readFrom]

/-- The text `p ++ q` with the datum comment of `d` in between, set off by blanks. -/
def commentedOut (p d q : List Char) : Source := ⟨p ++ ' ' :: '#' :: ';' :: (d ++ ' ' :: q), none⟩

/-- The tokens of a text of one datum are a word. -/
theorem exists_derives_of_next {d g : List Char} {y : Expr}
    (h : next ⟨d, none⟩ = (.ok y, ⟨g, none⟩)) : ∃ w, Lexer.Lexes d w g ∧ Derives w y := by
  obtain ⟨w, hlexes, hfeed⟩ := Reader.exists_lexes_of_readFrom (readFrom_of_next h)
  obtain ⟨w', rfl, hderives⟩ := Reader.feedAll_eq_done_iff.mp hfeed
  exact ⟨w' ++ [], hlexes, by rwa [List.append_nil]⟩

theorem readAll_commentedOut_of_between {p q d g : List Char} {xs : List Expr} {y : Expr}
    (hread : readAll ⟨p ++ q, none⟩ = .ok xs) (hplace : Between p q)
    (hdatum : next ⟨d, none⟩ = (.ok y, ⟨g, none⟩)) (hgap : Gap g) :
    (commentedOut p d q).readAll =
      if (Lexer.tokens none q).1.head? = some .close then .error (.syntaxError .unexpectedClose)
      else .ok xs := by
  obtain ⟨w, hlexes, hderives⟩ := exists_derives_of_next hdatum
  obtain ⟨ts, htokens, hafter⟩ := hplace.tokens
  rw [readAll_eq_assemble, htokens] at hread
  rw [commentedOut, readAll_eq_assemble, hafter _ (Lexer.boundary_blank _),
    Lexer.tokens_comment hlexes hgap]
  exact Reader.assemble_insert hderives hread

/-- The end of a text, where a line comment may be open. -/
theorem readAll_commentedOut_end {p d g : List Char} {xs : List Expr} {y : Expr} (hnul : nul ∉ p)
    (hread : readAll ⟨p, none⟩ = .ok xs) (hline : nul ∉ d ∧ '\n' ∉ d)
    (hdatum : next ⟨d, none⟩ = (.ok y, ⟨g, none⟩)) (hgap : Gap g) :
    (commentedOut p d []).readAll = .ok xs := by
  have hfinish : (Lexer.tokens none p).2 = .finish := by
    cases hstop : (Lexer.tokens none p).2 with
    | finish => rfl
    | fault f =>
      rw [readAll_eq_assemble, hstop] at hread
      exact absurd hread (Reader.assemble_fault f _ _ _ _)
  rcases Lexer.between_end_or_line hnul hfinish with hplace | hopen
  · have hend : readAll ⟨p ++ [], none⟩ = .ok xs := by rwa [List.append_nil]
    rw [readAll_commentedOut_of_between hend hplace hdatum hgap, if_neg]
    rw [Lexer.tokens_of_stop rfl]
    simp
  · rw [readAll_eq_assemble] at hread
    rw [commentedOut, readAll_eq_assemble, hopen, hread]
    · exact Lexer.boundary_blank _
    · simpa [nul] using hline.1
    · simpa using hline.2

/-- Datum comments are transparent, but for the one place in front of a closing parenthesis. Take a
    text without NULs that can be read, a place between its tokens or its end, and the text of one
    datum, with nothing but blanks and finished comments behind it. With the datum comment put in,
    the text is read as the same expressions; in front of a closing parenthesis, though, the
    parenthesis is refused. A text that ends in a line comment has the datum comment in that
    line, so no newline may be in it. -/
theorem readAll_commentedOut {p q d g : List Char} {xs : List Expr} {y : Expr}
    (hnul : nul ∉ p ++ q) (hread : readAll ⟨p ++ q, none⟩ = .ok xs)
    (hplace : Between p q ∨ q = [] ∧ nul ∉ d ∧ '\n' ∉ d)
    (hdatum : next ⟨d, none⟩ = (.ok y, ⟨g, none⟩)) (hgap : Gap g) :
    ((lex none q).1 ≠ .ok .close → (commentedOut p d q).readAll = .ok xs) ∧
    ((lex none q).1 = .ok .close →
      (commentedOut p d q).readAll = .error (.syntaxError .unexpectedClose)) := by
  rcases hplace with hplace | ⟨rfl, hline⟩
  · have hcommented := readAll_commentedOut_of_between hread hplace hdatum hgap
    rw [Ne, ← Lexer.head?_tokens]
    refine ⟨fun hopen => ?_, fun hclose => ?_⟩
    · rw [hcommented, if_neg hopen]
    · rw [hcommented, if_pos hclose]
  · rw [List.append_nil] at hnul hread
    exact ⟨fun _ => readAll_commentedOut_end hnul hread hline hdatum hgap, nofun⟩

theorem readAll_quoted : readAll ⟨['\x27', '(', 'x', ' ', 'y', ')'], none⟩ =
    .ok [.quoted (.pair (.sym "x") (.pair (.sym "y") .nil))] := by
  have hx : lex none ['x', ' ', 'y', ')'] = (.ok (.sym "x"), [' ', 'y', ')']) := by
    decide +kernel
  have hy : lex none [' ', 'y', ')'] = (.ok (.sym "y"), [')']) := by decide +kernel
  rw [readAll_eq_assemble, Lexer.tokens_of_lex (Lexer.lex_quote _),
    Lexer.tokens_of_lex (Lexer.lex_open _), Lexer.tokens_of_lex hx, Lexer.tokens_of_lex hy,
    Lexer.tokens_of_lex (Lexer.lex_close _), Lexer.tokens_of_stop rfl]
  rfl

/-- There is a place in front of the `y` in `'(x y)`. -/
theorem between_quoted : Between ['\x27', '(', 'x', ' '] ['y', ')'] := by
  have hx : lex none ['x', ' ', 'y', ')'] = (.ok (.sym "x"), [' ', 'y', ')']) := by
    decide +kernel
  exact Lexer.between_of_seek
    (.cons (Lexer.lex_quote _) (.cons (Lexer.lex_open _) (.cons hx (.nil _)))) rfl

/-- The datum `'u`, and a block comment behind it. -/
theorem next_datum : next ⟨['\x27', 'u', ' ', '#', '|', 'v', '|', '#'], none⟩ =
    (.ok (.quoted (.sym "u")), ⟨[' ', '#', '|', 'v', '|', '#'], none⟩) := by
  have hu : lex none ['u', ' ', '#', '|', 'v', '|', '#'] =
      (.ok (.sym "u"), [' ', '#', '|', 'v', '|', '#']) := by decide +kernel
  refine next_of_readFrom ?_
  rw [Reader.readFrom_of_lex (Lexer.lex_quote _)]
  exact Reader.readFrom_of_lex hu [.quote]

/-- The list `'(x y)` is read as before when `#;'u #|v|#` stands in front of the `y`. -/
theorem quoted_commentedOut :
    readAll ⟨['\x27', '(', 'x', ' ', 'y', ')'], none⟩ =
      .ok [.quoted (.pair (.sym "x") (.pair (.sym "y") .nil))] ∧
    (commentedOut ['\x27', '(', 'x', ' '] ['\x27', 'u', ' ', '#', '|', 'v', '|', '#']
      ['y', ')']).readAll = .ok [.quoted (.pair (.sym "x") (.pair (.sym "y") .nil))] := by
  have hy : lex none ['y', ')'] = (.ok (.sym "y"), [')']) := by decide +kernel
  have hcommented := readAll_commentedOut (by decide) readAll_quoted (.inl between_quoted)
    next_datum fun _ => rfl
  exact ⟨readAll_quoted, hcommented.1 (by rw [hy]; exact nofun)⟩

/-- The list `(a)` can be read, and there is a place in front of its closing parenthesis, but
    `(a #;b )` is refused. -/
theorem closing_refused_behind_comment :
    readAll ⟨['(', 'a', ')'], none⟩ = .ok [.list [.sym "a"]] ∧ Between ['(', 'a'] [')'] ∧
    next ⟨['b'], none⟩ = (.ok (.sym "b"), ⟨[], none⟩) ∧
    (commentedOut ['(', 'a'] ['b'] [')']).readAll = .error (.syntaxError .unexpectedClose) := by
  have ha : lex none ['a', ')'] = (.ok (.sym "a"), [')']) := by decide +kernel
  have hb : lex none ['b'] = (.ok (.sym "b"), []) := by decide +kernel
  have hread : readAll ⟨['(', 'a', ')'], none⟩ = .ok [.list [.sym "a"]] := by
    rw [readAll_eq_assemble, Lexer.tokens_of_lex (Lexer.lex_open _), Lexer.tokens_of_lex ha,
      Lexer.tokens_of_lex (Lexer.lex_close _), Lexer.tokens_of_stop rfl]
    rfl
  have hplace : Between ['(', 'a'] [')'] :=
    Lexer.between_of_seek (.cons (Lexer.lex_open _) (.cons ha (.nil _))) rfl
  have hnext : next ⟨['b'], none⟩ = (.ok (.sym "b"), ⟨[], none⟩) :=
    next_of_readFrom (Reader.readFrom_of_lex hb [])
  refine ⟨hread, hplace, hnext, ?_⟩
  rw [readAll_commentedOut_of_between hread hplace hnext fun _ => rfl, if_pos]
  rw [Lexer.tokens_of_lex (Lexer.lex_close _)]
  rfl

end Source

end FlatScheme
