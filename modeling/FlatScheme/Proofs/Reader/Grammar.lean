import FlatScheme.Proofs.Reader.LineEnd

/-!
The grammar that the reader follows.

    D ::= atom | boolean | ( D* ) | ' D | #; D D

`Derives w x` says that the word `w` of tokens is a `D` and stands for the expression `x`. A datum
comment is part of the datum behind it, and stands for nothing.

The reader takes tokens one by one. What it has taken and not yet made an expression of is on its
stack, and `Pending` says which tokens lead to which stack: a frame stands for its mark, for the
items of a list so far, and for the datum comments behind them. One token keeps this
(`feed_reached`), so a run does (`feedAll_reached`): what is read is derived, and what is left
unfinished is the beginning of a word. Conversely a word is read as what it derives, on any stack
(`Derives.feedAll`), so no text begins with two words.
-/

namespace FlatScheme

namespace Lexer

/-- All tokens up to the first thing that is none, and that thing. -/
def tokens (failure : Option String) (cs : List Char) : List Token × Stop :=
  match _h : lex failure cs with
  | (.ok t, rest) => (t :: (tokens failure rest).1, (tokens failure rest).2)
  | (.error stop, _) => ([], stop)
termination_by cs.length
decreasing_by all_goals exact lex_token_length ‹_›

theorem tokens_of_lex {failure : Option String} {cs rest : List Char} {t : Token}
    (h : lex failure cs = (.ok t, rest)) :
    tokens failure cs = (t :: (tokens failure rest).1, (tokens failure rest).2) := by
  rw [tokens]
  split
  · next heq =>
    rw [h] at heq
    cases heq
    rfl
  · next heq =>
    rw [h] at heq
    cases heq

theorem tokens_of_stop {failure : Option String} {cs rest : List Char} {stop : Stop}
    (h : lex failure cs = (.error stop, rest)) : tokens failure cs = ([], stop) := by
  rw [tokens]
  split
  · next heq =>
    rw [h] at heq
    cases heq
  · next heq =>
    rw [h] at heq
    cases heq
    rfl

end Lexer

namespace Reader

open Lexer (lex tokens tokens_of_lex tokens_of_stop)

/-! ### Words -/

mutual

/-- The word is a datum, and stands for the expression. -/
inductive Derives : List Token → Expr → Prop
  | num (n : Number) : Derives [.num n] (.num n)
  | str (s : String) : Derives [.str s] (.str s)
  | sym (x : String) : Derives [.sym x] (.sym x)
  | bool (b : Bool) : Derives [.bool b] (.quoted (.bool b))
  | list {w : List Token} {xs : List Expr} (items : DerivesAll w xs) :
      Derives (.open :: (w ++ [.close])) (.list xs)
  | quote {w : List Token} {x : Expr} (h : Derives w x) : Derives (.quote :: w) (.quoted x.datum)
  | skip {u w : List Token} {y x : Expr} (comment : Derives u y) (h : Derives w x) :
      Derives (.skip :: (u ++ w)) x

/-- The word is a row of data, and stands for the row of their expressions. -/
inductive DerivesAll : List Token → List Expr → Prop
  | nil : DerivesAll [] []
  | cons {u w : List Token} {x : Expr} {xs : List Expr} (first : Derives u x)
      (others : DerivesAll w xs) : DerivesAll (u ++ w) (x :: xs)

end

/-- A row of datum comments. -/
inductive Comments : List Token → Prop
  | nil : Comments []
  | cons {u w : List Token} {y : Expr} (first : Derives u y) (others : Comments w) :
      Comments (.skip :: (u ++ w))

theorem DerivesAll.concat {u : List Token} {x : Expr} (h : Derives u x) :
    ∀ {w : List Token} {xs : List Expr}, DerivesAll w xs → DerivesAll (w ++ u) (xs ++ [x])
  | _, _, .nil => by
    have hone := DerivesAll.cons h .nil
    rwa [List.append_nil] at hone
  | _, _, .cons first others => by
    have hrest := others.concat h
    rw [List.append_assoc]
    exact .cons first hrest

theorem Comments.concat {c u : List Token} {y : Expr} (h : Comments c) (hu : Derives u y) :
    Comments (c ++ .skip :: u) := by
  induction h with
  | nil =>
    have hone := Comments.cons hu .nil
    rwa [List.append_nil] at hone
  | cons first _ ih =>
    rw [List.cons_append, List.append_assoc]
    exact .cons first ih

/-- Datum comments in front of a datum are part of it. -/
theorem Comments.derives {c w : List Token} {x : Expr} (h : Comments c) (hw : Derives w x) :
    Derives (c ++ w) x := by
  induction h with
  | nil => exact hw
  | cons first _ ih =>
    rw [List.cons_append, List.append_assoc]
    exact .skip first ih

/-! ### The reader over a row of tokens -/

/-- Feed tokens until something comes of them; the others are left over. -/
def feedAll : List Frame → List Token → Progress × List Token
  | stack, [] => (.more stack, [])
  | stack, t :: ts =>
    match feed stack t with
    | .more stack' => feedAll stack' ts
    | p => (p, ts)

/-- Go on with further tokens. -/
def goOn : Progress → List Token → Progress × List Token
  | .more stack, ts => feedAll stack ts
  | p, ts => (p, ts)

theorem feedAll_cons (stack : List Frame) (t : Token) (ts : List Token) :
    feedAll stack (t :: ts) = goOn (feed stack t) ts := by
  rw [feedAll]
  cases feed stack t <;> rfl

theorem complete_owe (stack : List Frame) (x : Expr) : complete (owe stack) x = complete stack x := by
  rcases stack with _ | ⟨_ | _ | _, stack⟩ <;> rfl

mutual

/-- A word is read as what it derives, whatever has been begun. -/
theorem Derives.feedAll : ∀ {w : List Token} {x : Expr}, Derives w x →
    ∀ (stack : List Frame) (r : List Token),
      feedAll stack (w ++ r) = goOn (complete stack x) r
  | _, _, .num _, stack, r | _, _, .str _, stack, r | _, _, .sym _, stack, r
  | _, _, .bool _, stack, r => feedAll_cons stack _ r
  | _, _, .list items, stack, r => by
    rw [List.cons_append, List.append_assoc, List.singleton_append, feedAll_cons, feed, goOn,
      items.feedAll [] stack (.close :: r), feedAll_cons, feed, List.append_nil,
      List.reverse_reverse]
  | _, _, .quote h, stack, r => by
    rw [List.cons_append, feedAll_cons, feed, goOn, h.feedAll (.quote :: stack) r, complete]
  | _, _, .skip comment h, stack, r => by
    rw [List.cons_append, List.append_assoc, feedAll_cons, feed, goOn,
      comment.feedAll (.skip :: stack), complete, goOn, h.feedAll (owe stack) r, complete_owe]

/-- A row of words is read as further items of a list. -/
theorem DerivesAll.feedAll : ∀ {w : List Token} {xs : List Expr}, DerivesAll w xs →
    ∀ (items : List Expr) (stack : List Frame) (r : List Token),
      feedAll (.list items false :: stack) (w ++ r) =
        feedAll (.list (xs.reverse ++ items) false :: stack) r
  | _, _, .nil, _, _, _ => rfl
  | _, _, .cons (x := x) first others, items, stack, r => by
    rw [List.append_assoc, first.feedAll, complete, goOn, others.feedAll (x :: items) stack r,
      List.reverse_cons, List.append_assoc]
    rfl

end

theorem Comments.feedAll {c : List Token} (h : Comments c) (r : List Token) :
    feedAll [] (c ++ r) = feedAll [] r := by
  induction h with
  | nil => rfl
  | cons first _ ih =>
    rw [List.cons_append, List.append_assoc, feedAll_cons, feed, goOn, first.feedAll, complete,
      owe, goOn, ih]
    exact nofun

/-! ### What has been begun -/

/-- The tokens that lead to a stack. A list that is owed no item has no datum comment behind its
    last one. -/
inductive Pending : List Frame → List Token → Prop
  | start {c : List Token} (comments : Comments c) : Pending [] c
  | list {stack : List Frame} {w u c : List Token} {items : List Expr} {owed : Bool}
      (below : Pending stack w) (row : DerivesAll u items.reverse) (comments : Comments c)
      (settled : owed = false → c = []) :
      Pending (.list items owed :: stack) (w ++ .open :: (u ++ c))
  | quote {stack : List Frame} {w c : List Token} (below : Pending stack w)
      (comments : Comments c) : Pending (.quote :: stack) (w ++ .quote :: c)
  | skip {stack : List Frame} {w c : List Token} (below : Pending stack w)
      (comments : Comments c) : Pending (.skip :: stack) (w ++ .skip :: c)

/-- The tokens `w` have led there: to an expression that they derive, or to a stack. -/
def Reached (w : List Token) : Progress → Prop
  | .done x => Derives w x
  | .more stack => Pending stack w
  | .bad _ => True

/-- A finished datum comment adds to those on top. -/
theorem Pending.owe {stack : List Frame} {w u : List Token} {y : Expr} (h : Pending stack w)
    (hu : Derives u y) : Pending (owe stack) (w ++ .skip :: u) := by
  cases h with
  | start comments => exact .start (comments.concat hu)
  | list below row comments _ =>
    rw [List.append_assoc, List.cons_append, List.append_assoc]
    exact .list below row (comments.concat hu) nofun
  | quote below comments =>
    rw [List.append_assoc, List.cons_append]
    exact .quote below (comments.concat hu)
  | skip below comments =>
    rw [List.append_assoc, List.cons_append]
    exact .skip below (comments.concat hu)

/-- A datum is handed to what was waiting for it. -/
theorem complete_reached {stack : List Frame} {w v : List Token} {x : Expr} (h : Pending stack w)
    (hv : Derives v x) : Reached (w ++ v) (complete stack x) := by
  induction h generalizing v x with
  | start comments => exact comments.derives hv
  | @list stack w u c items owed below row comments _ _ =>
    -- the datum comments in front of it belong to the new item
    have hrow : DerivesAll (u ++ (c ++ v)) (x :: items).reverse := by
      rw [List.reverse_cons]
      exact row.concat (comments.derives hv)
    have hnext : Pending (.list (x :: items) false :: stack) (w ++ .open :: (u ++ (c ++ v) ++ [])) :=
      .list below hrow .nil fun _ => rfl
    rw [List.append_nil] at hnext
    rw [List.append_assoc, List.cons_append, List.append_assoc]
    exact hnext
  | quote _ comments ih =>
    rw [List.append_assoc, List.cons_append]
    exact ih (.quote (comments.derives hv))
  | skip below comments _ =>
    rw [List.append_assoc, List.cons_append]
    exact below.owe (comments.derives hv)

/-- One token. -/
theorem feed_reached {stack : List Frame} {w : List Token} (h : Pending stack w) (t : Token) :
    Reached (w ++ [t]) (feed stack t) := by
  cases t with
  | «open» => exact @Pending.list _ _ _ _ [] false h .nil .nil fun _ => rfl
  | quote => exact .quote h .nil
  | skip => exact .skip h .nil
  | num n => exact complete_reached h (.num n)
  | str s => exact complete_reached h (.str s)
  | sym x => exact complete_reached h (.sym x)
  | bool b => exact complete_reached h (.bool b)
  | close =>
    cases h with
    | @list stack w u c items owed below row comments settled =>
      cases owed with
      | true => trivial
      | false =>
        obtain rfl := settled rfl
        rw [List.append_nil, List.append_assoc, List.cons_append]
        exact complete_reached below (.list row)
    | _ => trivial

/-- A row of tokens. -/
theorem feedAll_reached {stack : List Frame} {w ts r : List Token} {p : Progress}
    (h : Pending stack w) (hfeed : feedAll stack ts = (p, r)) :
    ∃ v, ts = v ++ r ∧ Reached (w ++ v) p := by
  induction ts generalizing stack w with
  | nil =>
    cases hfeed
    exact ⟨[], rfl, by rwa [List.append_nil]⟩
  | cons t ts ih =>
    have hstep := feed_reached h t
    rw [feedAll_cons] at hfeed
    cases hp : feed stack t with
    | more stack' =>
      rw [hp] at hstep hfeed
      obtain ⟨v, rfl, hv⟩ := ih hstep hfeed
      exact ⟨t :: v, rfl, by rwa [List.append_assoc] at hv⟩
    | done x =>
      rw [hp] at hstep hfeed
      cases hfeed
      exact ⟨[t], rfl, hstep⟩
    | bad e =>
      rw [hp] at hfeed
      cases hfeed
      exact ⟨[t], rfl, trivial⟩

theorem pending_start : Pending [] [] := .start .nil

/-- Whatever has been begun, some more tokens behind the next datum finish it. -/
theorem Pending.exists_derives {stack : List Frame} {w v : List Token} {x : Expr}
    (h : Pending stack w) (hv : Derives v x) : ∃ v' y, Derives (w ++ (v ++ v')) y := by
  induction h generalizing v x with
  | start comments => exact ⟨[], x, by rw [List.append_nil]; exact comments.derives hv⟩
  | list _ row comments _ ih =>
    obtain ⟨v', y, hy⟩ := ih (.list (row.concat (comments.derives hv)))
    exact ⟨.close :: v', y, by simpa using hy⟩
  | quote _ comments ih =>
    obtain ⟨v', y, hy⟩ := ih (.quote (comments.derives hv))
    exact ⟨v', y, by simpa using hy⟩
  | skip _ comments ih =>
    -- the comment needs a datum behind it
    obtain ⟨v', y, hy⟩ := ih (.skip (comments.derives hv) (.list .nil))
    exact ⟨.open :: .close :: v', y, by simpa using hy⟩

/-- Is the row of tokens the beginning of a word, and not all of it? -/
def Unfinished (ts : List Token) : Prop := ∃ v x, v ≠ [] ∧ Derives (ts ++ v) x

theorem Pending.unfinished {stack : List Frame} {w : List Token} (h : Pending stack w) :
    Unfinished w := by
  obtain ⟨v, y, hy⟩ := h.exists_derives (.list .nil)
  exact ⟨_, y, by simp, hy⟩

/-- Tokens behind one that was refused are not looked at. -/
theorem feedAll_bad_append {stack : List Frame} {ts r : List Token} {e : SyntaxError}
    (h : feedAll stack ts = (.bad e, r)) (v : List Token) :
    feedAll stack (ts ++ v) = (.bad e, r ++ v) := by
  induction ts generalizing stack with
  | nil => cases h
  | cons t ts ih =>
    rw [feedAll_cons] at h
    rw [List.cons_append, feedAll_cons]
    cases hp : feed stack t with
    | more stack' =>
      rw [hp] at h
      exact ih h
    | done y =>
      rw [hp] at h
      cases h
    | bad e' =>
      rw [hp] at h
      cases h
      rfl

/-- A parenthesis out of place spoils every word. -/
theorem not_unfinished_of_bad {ts r : List Token} {e : SyntaxError}
    (h : feedAll [] ts = (.bad e, r)) : ¬ Unfinished ts := by
  rintro ⟨v, x, -, hx⟩
  have hdone := hx.feedAll [] []
  rw [List.append_nil, feedAll_bad_append h v] at hdone
  cases hdone

/-- The one thing that a token can do wrong. -/
theorem eq_unexpectedClose_of_feedAll {stack : List Frame} {ts r : List Token} {e : SyntaxError}
    (h : feedAll stack ts = (.bad e, r)) : e = .unexpectedClose := by
  induction ts generalizing stack with
  | nil => cases h
  | cons t ts ih =>
    rw [feedAll_cons] at h
    cases hp : feed stack t with
    | more stack' =>
      rw [hp] at h
      exact ih h
    | done x =>
      rw [hp] at h
      cases h
    | bad e' =>
      rw [hp] at h
      cases h
      exact eq_unexpectedClose_of_feed hp

theorem eq_nil_of_feedAll_more {stack stack' : List Frame} {ts r : List Token}
    (h : feedAll stack ts = (.more stack', r)) : r = [] := by
  induction ts generalizing stack with
  | nil =>
    cases h
    rfl
  | cons t ts ih =>
    rw [feedAll_cons] at h
    cases hp : feed stack t with
    | more stack'' =>
      rw [hp] at h
      exact ih h
    | done x =>
      rw [hp] at h
      cases h
    | bad e =>
      rw [hp] at h
      cases h

/-! ### Words and rows of tokens -/

/-- An expression comes of the tokens if and only if they begin with a word for it. -/
theorem feedAll_eq_done_iff {ts r : List Token} {x : Expr} :
    feedAll [] ts = (.done x, r) ↔ ∃ w, ts = w ++ r ∧ Derives w x := by
  constructor
  · intro h
    exact feedAll_reached pending_start h
  · rintro ⟨w, rfl, hw⟩
    exact hw.feedAll [] r

/-- The tokens are used up with nothing begun if and only if they are datum comments. -/
theorem feedAll_eq_more_nil_iff {ts : List Token} :
    (feedAll [] ts).1 = .more [] ↔ Comments ts := by
  constructor
  · intro h
    rcases hfeed : feedAll [] ts with ⟨p, r⟩
    obtain rfl : p = .more [] := by rw [hfeed] at h; exact h
    obtain rfl := eq_nil_of_feedAll_more hfeed
    obtain ⟨v, rfl, hv⟩ := feedAll_reached pending_start hfeed
    rw [List.append_nil]
    cases hv with
    | start comments => exact comments
  · intro h
    have hfeed := h.feedAll []
    rw [List.append_nil] at hfeed
    rw [hfeed]
    rfl

/-- No two words begin the same row of tokens, and no word stands for two expressions. -/
theorem Derives.unique {ts w w' : List Token} {x x' : Expr} (hw : w <+: ts) (hw' : w' <+: ts)
    (h : Derives w x) (h' : Derives w' x') : w = w' ∧ x = x' := by
  obtain ⟨r, rfl⟩ := hw
  obtain ⟨r', hr'⟩ := hw'
  have hfeed : Reader.feedAll [] (w ++ r) = (.done x, r) := h.feedAll [] r
  have hfeed' : Reader.feedAll [] (w' ++ r') = (.done x', r') := h'.feedAll [] r'
  rw [hr', hfeed] at hfeed'
  cases hfeed'
  exact ⟨(List.append_cancel_right hr').symm, rfl⟩

/-- Tokens that begin with no word are used up, as the beginning of one, or hold a closing
    parenthesis that no word has in that place. -/
theorem feedAll_cases {ts : List Token} (h : ∀ w x, w <+: ts → ¬ Derives w x) :
    (∃ stack, (feedAll [] ts).1 = .more stack ∧ Unfinished ts) ∨
      (feedAll [] ts).1 = .bad .unexpectedClose ∧ ¬ Unfinished ts := by
  rcases hfeed : feedAll [] ts with ⟨x | stack | e, r⟩
  · obtain ⟨w, rfl, hw⟩ := feedAll_eq_done_iff.mp hfeed
    exact absurd hw (h w x (List.prefix_append w r))
  · obtain rfl := eq_nil_of_feedAll_more hfeed
    obtain ⟨v, rfl, hv⟩ := feedAll_reached pending_start hfeed
    rw [List.append_nil]
    exact .inl ⟨stack, rfl, hv.unfinished⟩
  · obtain rfl := eq_unexpectedClose_of_feedAll hfeed
    exact .inr ⟨rfl, not_unfinished_of_bad hfeed⟩

/-! ### The reader over characters -/

/-- What the reader answers once its tokens have led to `p` and `stop` has come instead of
    another. -/
def conclude (stop : Stop) : Progress → Except Stop Expr
  | .done x => .ok x
  | .more stack =>
    match stop with
    | .finish => .error (finish stack)
    | .fault f => .error (.fault f)
  | .bad e => .error (.fault (.syntaxError e))

theorem readFrom_fst (failure : Option String) (stack : List Frame) (cs : List Char) :
    (readFrom failure stack cs).1 =
      conclude (tokens failure cs).2 (feedAll stack (tokens failure cs).1).1 := by
  fun_induction readFrom failure stack cs with
  | case1 stack cs t rest hlex x hfeed =>
    rw [tokens_of_lex hlex, feedAll_cons, hfeed]
    rfl
  | case2 stack cs t rest hlex stack' hfeed ih =>
    rw [tokens_of_lex hlex, feedAll_cons, hfeed]
    exact ih
  | case3 stack cs t rest hlex e hfeed =>
    rw [tokens_of_lex hlex, feedAll_cons, hfeed]
    rfl
  | case4 stack cs rest hlex =>
    rw [tokens_of_stop hlex]
    rfl
  | case5 stack cs f rest hlex =>
    rw [tokens_of_stop hlex]
    rfl

/-- Behind an expression the tokens are those that were left over. -/
theorem tokens_of_readFrom {failure : Option String} {stack : List Frame} {cs rest : List Char}
    {x : Expr} (h : readFrom failure stack cs = (.ok x, rest)) :
    tokens failure rest =
      ((feedAll stack (tokens failure cs).1).2, (tokens failure cs).2) := by
  fun_induction readFrom failure stack cs with
  | case1 stack cs t rest' hlex y hfeed =>
    cases h
    rw [tokens_of_lex hlex, feedAll_cons, hfeed]
    rfl
  | case2 stack cs t rest' hlex stack' hfeed ih =>
    rw [tokens_of_lex hlex, feedAll_cons, hfeed]
    exact ih h
  | case3 => cases h
  | case4 => cases h
  | case5 => cases h

/-- The end of the input is too early for whatever has been begun. -/
theorem finish_of_ne_nil {stack : List Frame} (h : stack ≠ []) :
    ∃ e, finish stack = .fault (.syntaxError e) ∧ e.isIncomplete = true := by
  rcases stack with _ | ⟨⟨_, _ | _⟩ | _ | _, stack⟩
  · exact absurd rfl h
  all_goals exact ⟨_, rfl, rfl⟩

theorem conclude_eq_finish_iff {stop : Stop} {p : Progress} :
    conclude stop p = .error .finish ↔ stop = .finish ∧ p = .more [] := by
  rcases p with x | stack | e
  · simp [conclude]
  · cases stop with
    | fault f => simp [conclude]
    | finish =>
      by_cases hstack : stack = []
      · simp [conclude, hstack, finish]
      · obtain ⟨e, he, -⟩ := finish_of_ne_nil hstack
        simp [conclude, he, hstack]
  · simp [conclude]

end Reader

namespace Source

open Reader (Derives Comments Unfinished feedAll conclude readFrom_fst)

/-- The tokens of a source, and what comes behind them. -/
def tokens (src : Source) : List Token × Stop := Lexer.tokens src.failure src.unread

theorem next_fst (src : Source) :
    src.next.1 = conclude src.tokens.2 (feedAll [] src.tokens.1).1 :=
  readFrom_fst src.failure [] src.unread

theorem tokens_of_next {src rest : Source} {x : Expr} (h : src.next = (.ok x, rest)) :
    rest.tokens = ((feedAll [] src.tokens.1).2, src.tokens.2) := by
  have hfailure : rest.failure = src.failure := (congrArg (·.2.failure) h).symm
  rw [tokens, hfailure]
  exact Reader.tokens_of_readFrom (readFrom_of_next h)

theorem next_eq_ok_iff {src : Source} {x : Expr} {r : List Token} :
    (∃ rest, src.next = (.ok x, rest) ∧ rest.tokens = (r, src.tokens.2)) ↔
      ∃ w, src.tokens.1 = w ++ r ∧ Derives w x := by
  rw [← Reader.feedAll_eq_done_iff]
  constructor
  · rintro ⟨rest, hnext, hrest⟩
    have hresult := src.next_fst
    rw [hnext] at hresult
    rw [tokens_of_next hnext] at hrest
    rcases hfeed : feedAll [] src.tokens.1 with ⟨y | stack | e, r'⟩
    · rw [hfeed] at hresult hrest
      cases hresult
      cases hrest
      rfl
    · rw [hfeed] at hresult
      cases hstop : src.tokens.2 <;> rw [hstop] at hresult <;> cases hresult
    · rw [hfeed] at hresult
      cases hresult
  · intro hfeed
    have hresult : src.next.1 = .ok x := by
      rw [next_fst, hfeed]
      rfl
    have hnext : src.next = (.ok x, src.next.2) := Prod.ext hresult rfl
    exact ⟨src.next.2, hnext, by rw [tokens_of_next hnext, hfeed]⟩

/-- The reader accepts exactly its grammar. Take the tokens of a source up to what stops them. A call
    of `next` returns an expression and leaves some tokens if and only if a word for the expression
    stands in front of those, and there is at most one such word. It returns the end of the input
    if and only if that is what comes behind datum comments alone. Otherwise it returns a syntax
    error. The error is for lack of text if the tokens are the beginning of a word, and else it is
    a closing parenthesis out of place. A fault behind the beginning of a word is the fault
    returned. -/
theorem next_accepts_grammar (src : Source) :
    (∀ x r, (∃ rest, src.next = (.ok x, rest) ∧ rest.tokens = (r, src.tokens.2)) ↔
      ∃ w, src.tokens.1 = w ++ r ∧ Derives w x) ∧
    (∀ w w' x x', w <+: src.tokens.1 → w' <+: src.tokens.1 → Derives w x → Derives w' x' →
      w = w' ∧ x = x') ∧
    (src.next.1 = .error .finish ↔ src.tokens.2 = .finish ∧ Comments src.tokens.1) ∧
    ((∀ w x, w <+: src.tokens.1 → ¬ Derives w x) →
      (src.tokens.2 = .finish → ¬ Comments src.tokens.1 →
        ∃ e, src.next.1 = .error (.fault (.syntaxError e)) ∧
          (e.isIncomplete = true ↔ Unfinished src.tokens.1) ∧
          (¬ Unfinished src.tokens.1 → e = .unexpectedClose)) ∧
      (∀ f, src.tokens.2 = .fault f →
        (Unfinished src.tokens.1 → src.next.1 = .error (.fault f)) ∧
        (¬ Unfinished src.tokens.1 →
          src.next.1 = .error (.fault (.syntaxError .unexpectedClose))))) := by
  refine ⟨fun x r => next_eq_ok_iff, fun w w' x x' => Derives.unique, ?_, ?_⟩
  · rw [next_fst, Reader.conclude_eq_finish_iff, Reader.feedAll_eq_more_nil_iff]
  · intro hnone
    rw [next_fst]
    rcases Reader.feedAll_cases hnone with ⟨stack, hmore, hunfinished⟩ | ⟨hbad, hspoilt⟩
    · rw [hmore]
      refine ⟨?_, ?_⟩
      · intro hstop hcomments
        have hstack : stack ≠ [] := by
          rintro rfl
          exact hcomments (Reader.feedAll_eq_more_nil_iff.mp hmore)
        obtain ⟨e, he, hincomplete⟩ := Reader.finish_of_ne_nil hstack
        refine ⟨e, by rw [hstop, conclude, he], ?_, fun h => absurd hunfinished h⟩
        exact ⟨fun _ => hunfinished, fun _ => hincomplete⟩
      · intro f hstop
        exact ⟨fun _ => by rw [hstop, conclude], fun h => absurd hunfinished h⟩
    · rw [hbad]
      refine ⟨?_, ?_⟩
      · intro _ _
        exact ⟨.unexpectedClose, rfl, by simp [SyntaxError.isIncomplete, hspoilt], fun _ => rfl⟩
      · intro f _
        exact ⟨fun h => absurd h hspoilt, fun _ => rfl⟩

/-- The tokens of `(#;a 'b)c`: a list whose one item stands behind a datum comment, and a name. -/
theorem tokens_commentedItem :
    tokens ⟨['(', '#', ';', 'a', ' ', '\x27', 'b', ')', 'c'], none⟩ =
      ([.open, .skip, .sym "a", .quote, .sym "b", .close, .sym "c"], .finish) := by
  have ha : Lexer.lex none ['a', ' ', '\x27', 'b', ')', 'c'] =
      (.ok (.sym "a"), [' ', '\x27', 'b', ')', 'c']) := by decide +kernel
  have hb : Lexer.lex none ['b', ')', 'c'] = (.ok (.sym "b"), [')', 'c']) := by decide +kernel
  have hc : Lexer.lex none ['c'] = (.ok (.sym "c"), []) := by decide +kernel
  have hskip : ∀ rest, Lexer.lex none ('#' :: ';' :: rest) = (.ok .skip, rest) := fun _ => rfl
  have hquote : ∀ rest, Lexer.lex none (' ' :: '\x27' :: rest) = (.ok .quote, rest) := fun _ => rfl
  rw [tokens, Lexer.tokens_of_lex (Lexer.lex_open _), Lexer.tokens_of_lex (hskip _),
    Lexer.tokens_of_lex ha, Lexer.tokens_of_lex (hquote _), Lexer.tokens_of_lex hb,
    Lexer.tokens_of_lex (Lexer.lex_close _), Lexer.tokens_of_lex hc, Lexer.tokens_of_stop rfl]

/-- The list is a word in front of the name, and a call of `next` returns it. -/
theorem commentedItem_accepted :
    Derives [.open, .skip, .sym "a", .quote, .sym "b", .close] (.list [.quoted (.sym "b")]) ∧
    ∃ rest, next ⟨['(', '#', ';', 'a', ' ', '\x27', 'b', ')', 'c'], none⟩ =
      (.ok (.list [.quoted (.sym "b")]), rest) ∧ rest.tokens = ([.sym "c"], .finish) := by
  have hitem : Derives [.skip, .sym "a", .quote, .sym "b"] (.quoted (.sym "b")) :=
    .skip (.sym "a") (.quote (.sym "b"))
  have hlist : Derives [.open, .skip, .sym "a", .quote, .sym "b", .close]
      (.list [.quoted (.sym "b")]) := .list (.cons hitem .nil)
  have hnext := (next_accepts_grammar
    ⟨['(', '#', ';', 'a', ' ', '\x27', 'b', ')', 'c'], none⟩).1 (.list [.quoted (.sym "b")])
    [.sym "c"]
  rw [tokens_commentedItem] at hnext
  exact ⟨hlist, hnext.mpr ⟨_, rfl, hlist⟩⟩

end Source

end FlatScheme
