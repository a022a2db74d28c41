import FlatScheme.Proofs.Reader.RoundTrip

/-!
What the reader makes of a text, line end by line end.

Take a text without NULs, and let nothing or a newline stand behind it. Then what can follow hardly
matters: either the text holds an error that nothing behind it mends, or it leaves the reader
*paused*, at a place between tokens, in a block comment or in a string literal, with a stack of
things begun and with the expressions read so far. What follows is read from there, as if the text
before it had never been seen.

A word ends at the newline, a line comment too, and a `#` or `|` at the end of a line opens and
closes no block comment. This is what fails at other cuts: a text may well break off in the middle
of a word.
-/

namespace FlatScheme

namespace Lexer

open Text (nul isBlank continuesName)

/-- What may stand behind a text at a line end: nothing, or a newline and further lines. -/
def LineEnd : List Char → Prop
  | [] => True
  | c :: _ => c = '\n'

theorem LineEnd.newline (after : List Char) : LineEnd ('\n' :: after) := rfl

theorem LineEnd.boundary : ∀ {after : List Char}, LineEnd after → Boundary after
  | [], _ => trivial
  | _ :: _, rfl => ⟨by decide, by decide⟩

/-- A line end brings no character but a newline. -/
theorem LineEnd.head?_ne {cs after : List Char} {c : Char} (hafter : LineEnd after)
    (hc : c ≠ '\n') (hcs : cs.head? ≠ some c) : (cs ++ after).head? ≠ some c := by
  cases cs with
  | nil =>
    cases after with
    | nil => simp
    | cons d after =>
      obtain rfl : d = '\n' := hafter
      simpa using Ne.symm hc
  | cons d cs => simpa using hcs

/-- What comes of a text, as a function `f` of what stands behind it: a result that uses up the
    text only in part, an error that nothing mends, or a pause, from which `goOn` reads on. -/
inductive Cut {α Pause : Type} (goOn : Pause → List Char → Except Stop α × List Char)
    (f : List Char → Except Stop α × List Char) : Prop
  | found (a : α) (rest : List Char) (hnul : nul ∉ rest)
    (h : ∀ after, LineEnd after → f after = (.ok a, rest ++ after))
  | refused (h : ∀ after, LineEnd after →
      ∃ e rest, e.isIncomplete = false ∧ f after = (bad e, rest))
  | pause (p : Pause) (h : ∀ after, LineEnd after → f after = goOn p after)

theorem Cut.congr {α Pause : Type} {goOn : Pause → List Char → Except Stop α × List Char}
    {f g : List Char → Except Stop α × List Char} (hf : Cut goOn f)
    (h : ∀ after, LineEnd after → g after = f after) : Cut goOn g := by
  cases hf with
  | found a rest hnul hf =>
    exact .found a rest hnul fun after hafter => (h after hafter).trans (hf after hafter)
  | refused hf =>
    refine .refused fun after hafter => ?_
    rw [h after hafter]
    exact hf after hafter
  | pause p hf => exact .pause p fun after hafter => (h after hafter).trans (hf after hafter)

/-- An error at the end of the input and at a newline is an error at a line end. -/
theorem Cut.refused_at_once {α Pause : Type} {goOn : Pause → List Char → Except Stop α × List Char}
    {f : List Char → Except Stop α × List Char} {e e' : SyntaxError} {rest : List Char}
    (he : e.isIncomplete = false) (hnil : f [] = (bad e, rest)) (he' : e'.isIncomplete = false)
    (hnewline : ∀ after, f ('\n' :: after) = (bad e', after)) : Cut goOn f := by
  refine .refused fun after hafter => ?_
  cases after with
  | nil => exact ⟨e, rest, he, hnil⟩
  | cons c after =>
    obtain rfl : c = '\n' := hafter
    exact ⟨e', after, he', hnewline after⟩

/-! ### Where the lexer pauses -/

/-- Where a text leaves the lexer: between tokens, inside `outer + 1` block comments, or in a string
    literal with the characters `done` so far, in reverse. -/
inductive Place where
  | code
  | comment (outer : Nat)
  | string (done : List Char)

/-- The next token, from a region on. -/
def lexFrom (region : Region) (cs : List Char) : Except Stop Token × List Char :=
  match seek none region cs with
  | (.ok c, rest) => scan none c rest
  | (.error stop, rest) => (.error stop, rest)

/-- The next token, from a place on. -/
def Place.lex : Place → List Char → Except Stop Token × List Char
  | .code => lexFrom .code
  | .comment outer => lexFrom (.block outer)
  | .string done => scanString none .plain done

/-! ### Tokens at a line end -/

theorem scanString_cut (part : StringPart) (done cs : List Char) (hnul : nul ∉ cs) :
    Cut Place.lex fun after => scanString none part done (cs ++ after) := by
  fun_induction scanString none part done cs with
  | case1 => simp_all
  | case2 done cs hc => exact .found _ cs (by simp_all) fun _ _ => rfl
  | case3 done cs hc hq ih =>
    refine (ih (by simp_all)).congr fun after _ => ?_
    simp [scanString, nul]
  | case4 done c cs hc hq hb ih =>
    refine (ih (by simp_all)).congr fun after _ => ?_
    simp [scanString, hc, hq, hb]
  | case5 done => exact .pause (.string done) fun _ _ => rfl
  | case6 done cs ih => exact (ih (by simp_all)).congr fun _ _ => rfl
  | case7 done c cs hc d hd ih =>
    refine (ih (by simp_all)).congr fun after _ => ?_
    simp [scanString, hc, hd]
  | case8 done c cs hc hd =>
    refine .refused fun after _ => ⟨.invalidEscape c, cs ++ after, rfl, ?_⟩
    simp [scanString, hc, hd]
  | case9 done => exact .refused_at_once rfl rfl rfl fun _ => rfl
  | case10 code done cs ih => exact (ih (by simp_all)).congr fun _ _ => rfl
  | case11 code done c cs hc d hd hrange =>
    refine .refused fun after _ => ⟨.hexOutOfRange, cs ++ after, rfl, ?_⟩
    simp [scanString, hc, hd, hrange]
  | case12 code done c cs hc d hd hrange ih =>
    refine (ih (by simp_all)).congr fun after _ => ?_
    simp [scanString, hc, hd, hrange]
  | case13 code done c cs hc hd =>
    refine .refused fun after _ => ⟨.invalidHexDigit c, cs ++ after, rfl, ?_⟩
    simp [scanString, hc, hd]
  | case14 code done => exact .refused_at_once rfl rfl rfl fun _ => rfl

/-- A word is judged at once: it is a token, or an error that is not for lack of text. -/
def Judges (make : List Char → Except Stop Token) : Prop :=
  ∀ word, (∃ t, make word = .ok t) ∨ ∃ e, e.isIncomplete = false ∧ make word = bad e

theorem judges_asNumber {otherwise : List Char → Except Stop Token} (h : Judges otherwise) :
    Judges (asNumber otherwise) := by
  intro word
  unfold asNumber
  split
  · exact Or.inl ⟨_, rfl⟩
  · exact h word

theorem scanWord_cut {make : List Char → Except Stop Token} (hmake : Judges make) (c : Char)
    (cs : List Char) (hnul : nul ∉ cs) :
    Cut Place.lex fun after => scanWord none make c (cs ++ after) := by
  have hword : ∀ d ∈ cs.takeWhile continuesName, continuesName d = true :=
    List.all_eq_true.mp List.all_takeWhile
  have hrest : nul ∉ cs.dropWhile continuesName :=
    fun h => hnul ((List.dropWhile_sublist _).subset h)
  have hscan : ∀ after, LineEnd after → scanWord none make c (cs ++ after) =
      (make (c :: cs.takeWhile continuesName), cs.dropWhile continuesName ++ after) := by
    intro after hafter
    have hboundary : Boundary (cs.dropWhile continuesName ++ after) := by
      cases hdrop : cs.dropWhile continuesName with
      | nil => exact hafter.boundary
      | cons d rest =>
        rw [hdrop] at hrest
        have hd := List.head?_dropWhile_not continuesName cs
        rw [hdrop] at hd
        exact ⟨by simpa using hd, fun heq => hrest (heq ▸ List.mem_cons_self)⟩
    have hcut := scanWord_of_boundary make c hword hboundary
    rwa [← List.append_assoc, List.takeWhile_append_dropWhile] at hcut
  rcases hmake (c :: cs.takeWhile continuesName) with ⟨t, ht⟩ | ⟨e, he, hbad⟩
  · exact .found t _ hrest fun after hafter => by rw [hscan after hafter, ht]
  · exact .refused fun after hafter => ⟨e, _, he, by rw [hscan after hafter, hbad]⟩

theorem scanBool_cut (b : Bool) (letter : Char) (cs : List Char) (hnul : nul ∉ cs) :
    Cut Place.lex fun after => scanBool b letter (cs ++ after) := by
  cases cs with
  | nil =>
    exact .found (.bool b) [] hnul fun _ hafter => scanBool_of_boundary b letter hafter.boundary
  | cons c cs =>
    by_cases hc : continuesName c = true
    · refine .refused fun after _ => ⟨.invalidToken ['#', letter, c], c :: cs ++ after, rfl, ?_⟩
      simp [scanBool, hc]
    · refine .found (.bool b) (c :: cs) hnul fun after _ => ?_
      refine scanBool_of_boundary b letter ⟨by simpa using hc, ?_⟩
      rintro rfl
      exact hnul List.mem_cons_self

theorem scanHash_cut (cs : List Char) (hnul : nul ∉ cs) :
    Cut Place.lex fun after => scanHash none (cs ++ after) := by
  cases cs with
  | nil => exact .refused_at_once rfl rfl rfl fun _ => rfl
  | cons c cs =>
    have hcs : nul ∉ cs := fun h => hnul (List.mem_cons_of_mem c h)
    simp only [List.cons_append, scanHash]
    split_ifs
    · exact scanBool_cut true 't' cs hcs
    · exact scanBool_cut false 'f' cs hcs
    · exact .found .skip cs hcs fun _ _ => rfl
    · exact .refused fun _ _ => ⟨_, _, rfl, rfl⟩

theorem scan_cut (c : Char) (cs : List Char) (hnul : nul ∉ cs) :
    Cut Place.lex fun after => scan none c (cs ++ after) := by
  unfold scan
  split_ifs
  · exact .found .open cs hnul fun _ _ => rfl
  · exact .found .close cs hnul fun _ _ => rfl
  · exact .found .quote cs hnul fun _ _ => rfl
  · exact scanString_cut .plain [] cs hnul
  · exact scanHash_cut cs hnul
  · exact scanWord_cut (judges_asNumber fun _ => Or.inl ⟨_, rfl⟩) c cs hnul
  · exact scanWord_cut (judges_asNumber fun _ => Or.inr ⟨_, rfl, rfl⟩) c cs hnul
  · exact scanWord_cut (fun _ => Or.inl ⟨_, rfl⟩) c cs hnul
  · exact .refused fun _ _ => ⟨_, _, rfl, rfl⟩

/-! ### Blanks and comments at a line end -/

theorem lexFrom_congr {region region' : Region} {cs cs' : List Char}
    (h : seek none region cs = seek none region' cs') :
    lexFrom region cs = lexFrom region' cs' := by
  rw [lexFrom, lexFrom, h]

/-- A character that begins no comment mark is passed over in a block comment. -/
theorem seek_block_cons {outer : Nat} {c : Char} {cs : List Char} (hc : c ≠ nul)
    (hhash : c = '#' → cs.head? ≠ some '|' ∧ cs.head? ≠ some nul)
    (hbar : c = '|' → cs.head? ≠ some '#' ∧ cs.head? ≠ some nul) :
    seek none (.block outer) (c :: cs) = seek none (.block outer) cs := by
  rw [seek, if_neg hc]
  · rintro _ rfl rfl
    exact (hhash rfl).1 rfl
  · rintro _ _ rfl rfl
    exact (hbar rfl).1 rfl
  · rintro _ _ _ rfl rfl
    exact (hbar rfl).1 rfl
  · rintro _ rfl rfl
    exact (hhash rfl).2 rfl
  · rintro _ rfl rfl
    exact (hbar rfl).2 rfl

/-- A line comment ends with its line. -/
theorem lexFrom_line {after : List Char} (h : LineEnd after) :
    lexFrom .line after = lexFrom .code after := by
  cases after with
  | nil => rfl
  | cons c after =>
    obtain rfl : c = '\n' := h
    rfl

theorem lexFrom_cut (region : Region) (cs : List Char) (hnul : nul ∉ cs) :
    Cut Place.lex fun after => lexFrom region (cs ++ after) := by
  fun_induction seek none region cs with
  | case1 cs ih => exact (ih (by simp_all)).congr fun _ _ => rfl
  | case2 cs ih => exact (ih (by simp_all)).congr fun _ _ => rfl
  | case3 => simp_all
  | case4 c cs _ _ _ hblank ih =>
    exact (ih (by simp_all)).congr fun after _ => lex_blank hblank (cs ++ after)
  | case5 c cs hblock hcomment hc hblank =>
    -- the first character of a token; a `#` at the line end is none that opens a comment
    refine (scan_cut c cs (by simp_all)).congr fun after hafter => ?_
    refine lex_of_starts ⟨hc, by simpa using hblank, hcomment⟩ fun hhash rest heq => ?_
    have hhead : (cs ++ after).head? ≠ some '|' := by
      refine hafter.head?_ne (by decide) fun hcs => ?_
      obtain ⟨rest, rfl⟩ := List.head?_eq_some_iff.mp hcs
      exact hblock _ hhash rfl
    exact hhead (congrArg List.head? heq)
  | case6 c cs ih => exact (ih (by simp_all)).congr fun _ _ => rfl
  | case7 outer cs ih => exact (ih (by simp_all)).congr fun _ _ => rfl
  | case8 cs ih => exact (ih (by simp_all)).congr fun _ _ => rfl
  | case9 outer cs ih => exact (ih (by simp_all)).congr fun _ _ => rfl
  | case10 => simp_all [nul]
  | case11 => simp_all [nul]
  | case12 => simp_all
  | case13 outer c cs hhash hbar hbar' _ _ hc ih =>
    refine (ih (by simp_all)).congr fun after hafter => lexFrom_congr ?_
    have hhead : (cs ++ after).head? ≠ some nul := by
      refine hafter.head?_ne (by decide) fun hcs => ?_
      exact hnul (List.mem_cons_of_mem c (List.mem_of_head? hcs))
    refine seek_block_cons hc (fun h => ⟨?_, hhead⟩) (fun h => ⟨?_, hhead⟩)
    · refine hafter.head?_ne (by decide) fun hcs => ?_
      obtain ⟨rest, rfl⟩ := List.head?_eq_some_iff.mp hcs
      exact hhash _ h rfl
    · refine hafter.head?_ne (by decide) fun hcs => ?_
      obtain ⟨rest, rfl⟩ := List.head?_eq_some_iff.mp hcs
      cases outer with
      | zero => exact hbar _ rfl h rfl
      | succ outer => exact hbar' _ _ rfl h rfl
  | case14 outer => exact .pause (.comment outer) fun _ _ => rfl
  | case15 => exact .pause .code fun _ _ => rfl
  | case16 => exact .pause .code fun _ hafter => lexFrom_line hafter

end Lexer

/-! ### Expressions at a line end -/

namespace Reader

open Lexer (lex lexFrom lex_token_length Place LineEnd Cut bad)
open Text (nul)

/-- The next expression, from a place and a stack of things begun on. -/
def readAt (p : Place × List Frame) (cs : List Char) : Except Stop Expr × List Char :=
  match p.1.lex cs with
  | (.ok t, rest) => resume none (feed p.2 t) rest
  | (.error .finish, rest) => (.error (finish p.2), rest)
  | (.error (.fault f), rest) => (.error (.fault f), rest)

theorem readFrom_eq_readAt (stack : List Frame) (cs : List Char) :
    readFrom none stack cs = readAt (.code, stack) cs :=
  readFrom_eq none stack cs

theorem complete_ne_bad : ∀ (stack : List Frame) (x : Expr) (e : SyntaxError),
    complete stack x ≠ .bad e
  | [], _, _ => nofun
  | .list _ _ :: _, _, _ => nofun
  | .quote :: stack, x, e => complete_ne_bad stack (.quoted x.datum) e
  | .skip :: _, _, _ => nofun

/-- The only token that may be out of place is a closing parenthesis. -/
theorem eq_unexpectedClose_of_feed {stack : List Frame} {t : Token} {e : SyntaxError}
    (h : feed stack t = .bad e) : e = .unexpectedClose := by
  unfold feed at h
  split at h <;> first | exact absurd h (complete_ne_bad _ _ _) | (cases h; rfl) | cases h

theorem readFrom_cut (stack : List Frame) (cs : List Char) (hnul : nul ∉ cs) :
    Cut readAt fun after => readFrom none stack (cs ++ after) := by
  -- induction on the length of the text, one token at a time
  induction hn : cs.length using Nat.strong_induction_on generalizing cs stack with
  | _ n ih =>
    cases Lexer.lexFrom_cut .code cs hnul with
    | found t rest hrest hlex =>
      have hshorter : rest.length < n := by
        have hself : lexFrom .code cs = (.ok t, rest) := by simpa using hlex [] trivial
        exact hn ▸ lex_token_length (show lex none cs = (.ok t, rest) from hself)
      have hread : ∀ after, LineEnd after → readFrom none stack (cs ++ after) =
          resume none (feed stack t) (rest ++ after) :=
        fun after hafter => readFrom_of_lex (hlex after hafter) stack
      cases hfeed : feed stack t with
      | done x =>
        exact .found x rest hrest fun after hafter => by rw [hread after hafter, hfeed]; rfl
      | more stack' =>
        refine (ih rest.length hshorter stack' rest hrest rfl).congr fun after hafter => ?_
        rw [hread after hafter, hfeed]
        rfl
      | bad e =>
        refine .refused fun after hafter => ⟨e, rest ++ after, ?_, ?_⟩
        · rw [eq_unexpectedClose_of_feed hfeed]
          rfl
        · rw [hread after hafter, hfeed]
          rfl
    | refused hlex =>
      refine .refused fun after hafter => ?_
      obtain ⟨e, rest, he, hbad⟩ := hlex after hafter
      exact ⟨e, rest, he, by rw [readFrom_eq_readAt, readAt, Place.lex, hbad]; rfl⟩
    | pause place hlex =>
      refine .pause (place, stack) fun after hafter => ?_
      rw [readFrom_eq_readAt, readAt, readAt, Place.lex, hlex after hafter]

end Reader

/-! ### Whole texts at a line end -/

namespace Source

open Lexer (Place LineEnd)
open Reader (Frame readAt readFrom readFrom_cut readFrom_eq_readAt)
open Text (nul)

/-- All expressions behind a first reading, and behind those already read, which are kept in
    reverse. -/
def collect (done : List Expr) : Except Stop Expr × List Char → Except Fault (List Expr)
  | (.ok x, rest) => readRest ⟨rest, none⟩ (x :: done)
  | (.error .finish, _) => .ok done.reverse
  | (.error (.fault f), _) => .error f

theorem readRest_eq_collect (cs : List Char) (done : List Expr) :
    readRest ⟨cs, none⟩ done = collect done (readFrom none [] cs) := by
  rw [readRest_eq, next]
  rcases readFrom none [] cs with ⟨(_ | _) | _, rest⟩ <;> rfl

theorem readRest_nil (done : List Expr) : readRest ⟨[], none⟩ done = .ok done.reverse := by
  rw [readRest_eq_collect, readFrom_eq_readAt]
  rfl

/-- The expressions already read stand in front of those still to be read. -/
theorem readRest_append (src : Source) (done done' : List Expr) :
    src.readRest (done ++ done') = (src.readRest done).map (done'.reverse ++ ·) := by
  fun_induction readRest src done with
  | case1 src done x rest hnext ih =>
    rw [readRest_eq, hnext]
    exact ih
  | case2 src done rest hnext =>
    rw [readRest_eq, hnext]
    simp [Except.map]
  | case3 src done f rest hnext =>
    rw [readRest_eq, hnext]
    rfl

/-- A text without NULs is in error whatever follows behind a line end, or it leaves the reader
    paused. -/
theorem readRest_cut (cs : List Char) (done : List Expr) (hnul : nul ∉ cs) :
    (∀ after, LineEnd after →
      ∃ e, e.isIncomplete = false ∧ readRest ⟨cs ++ after, none⟩ done = .error (.syntaxError e)) ∨
    (∃ (p : Place × List Frame) (xs : List Expr), ∀ after, LineEnd after →
      readRest ⟨cs ++ after, none⟩ done = collect xs (readAt p after)) := by
  induction hn : cs.length using Nat.strong_induction_on generalizing cs done with
  | _ n ih =>
    cases readFrom_cut [] cs hnul with
    | found x rest hrest hread =>
      have hshorter : rest.length < n := by
        have hself : readFrom none [] cs = (.ok x, rest) := by simpa using hread [] trivial
        exact hn ▸ Reader.readFrom_length hself
      have hnext : ∀ after, LineEnd after →
          readRest ⟨cs ++ after, none⟩ done = readRest ⟨rest ++ after, none⟩ (x :: done) := by
        intro after hafter
        rw [readRest_eq_collect, hread after hafter]
        rfl
      rcases ih rest.length hshorter rest (x :: done) hrest rfl with h | ⟨p, xs, h⟩
      · exact Or.inl fun after hafter => by rw [hnext after hafter]; exact h after hafter
      · exact Or.inr ⟨p, xs, fun after hafter => (hnext after hafter).trans (h after hafter)⟩
    | refused hread =>
      refine Or.inl fun after hafter => ?_
      obtain ⟨e, rest, he, hbad⟩ := hread after hafter
      exact ⟨e, he, by rw [readRest_eq_collect, hbad]; rfl⟩
    | pause p hread =>
      exact Or.inr ⟨p, done, fun after hafter => by rw [readRest_eq_collect, hread after hafter]⟩

/-- Where the text ends at a line end, the pause is a proper end, or the text is incomplete. -/
theorem collect_readAt_end (p : Place × List Frame) (xs : List Expr) {after : List Char}
    (hafter : after = [] ∨ after = ['\n']) :
    (p = (.code, []) ∧ collect xs (readAt p after) = .ok xs.reverse) ∨
    (∃ e, e.isIncomplete = true ∧ collect xs (readAt p after) = .error (.syntaxError e)) := by
  obtain ⟨place, stack⟩ := p
  cases place with
  | code =>
    have hend : Place.code.lex after = (.error .finish, []) := by
      rcases hafter with rfl | rfl <;> rfl
    rw [readAt, hend]
    match stack with
    | [] => exact Or.inl ⟨rfl, rfl⟩
    | .list _ false :: _ => exact Or.inr ⟨.unbalanced, rfl, rfl⟩
    | .list _ true :: _ => exact Or.inr ⟨.unexpectedEnd, rfl, rfl⟩
    | .quote :: _ => exact Or.inr ⟨.unexpectedEnd, rfl, rfl⟩
    | .skip :: _ => exact Or.inr ⟨.unexpectedEnd, rfl, rfl⟩
  | comment outer =>
    refine Or.inr ⟨.unterminatedComment, rfl, ?_⟩
    rcases hafter with rfl | rfl <;> rfl
  | string done =>
    refine Or.inr ⟨.unterminatedString, rfl, ?_⟩
    rcases hafter with rfl | rfl <;> rfl

/-- A newline behind a text that can be read changes nothing. -/
theorem readAll_append_newline {cs : List Char} {xs : List Expr} (hnul : nul ∉ cs)
    (h : readAll ⟨cs, none⟩ = .ok xs) : readAll ⟨cs ++ ['\n'], none⟩ = .ok xs := by
  rcases readRest_cut cs [] hnul with hrefused | ⟨p, done, hpause⟩
  · obtain ⟨e, _, hread⟩ := hrefused [] trivial
    rw [List.append_nil, ← readAll, h] at hread
    cases hread
  · have hself := hpause [] trivial
    rw [List.append_nil, ← readAll, h] at hself
    rcases collect_readAt_end p done (Or.inl rfl) with ⟨rfl, hok⟩ | ⟨e, _, herror⟩
    · rw [hself, hok, readAll, hpause _ (.newline [])]
      rfl
    · rw [herror] at hself
      cases hself

/-- The first lines of a text that can be read are incomplete, or they can be read, and what they
    hold comes before what the other lines hold. -/
theorem readAll_of_readAll_append {cs rest : List Char} {exprs : List Expr} (hnul : nul ∉ cs)
    (h : readAll ⟨cs ++ '\n' :: rest, none⟩ = .ok exprs) :
    (∃ e, e.isIncomplete = true ∧ readAll ⟨cs ++ ['\n'], none⟩ = .error (.syntaxError e)) ∨
    (∃ xs ys, readAll ⟨cs ++ ['\n'], none⟩ = .ok xs ∧ readAll ⟨rest, none⟩ = .ok ys ∧
      exprs = xs ++ ys) := by
  rcases readRest_cut cs [] hnul with hrefused | ⟨p, done, hpause⟩
  · obtain ⟨e, _, hread⟩ := hrefused _ (.newline rest)
    rw [readAll, hread] at h
    cases h
  · have hfirst := hpause ['\n'] (.newline [])
    rcases collect_readAt_end p done (Or.inr rfl) with ⟨rfl, hok⟩ | ⟨e, he, herror⟩
    · -- at a proper end the other lines are read as a text of their own
      refine Or.inr ⟨done.reverse, ?_⟩
      have hwhole : readAll ⟨cs ++ '\n' :: rest, none⟩ =
          (readAll ⟨rest, none⟩).map (done.reverse ++ ·) := by
        rw [readAll, hpause _ (.newline rest), ← readFrom_eq_readAt, ← readRest_eq_collect,
          readRest_newline, readAll, ← readRest_append, List.nil_append]
      rw [hwhole] at h
      cases hys : readAll ⟨rest, none⟩ with
      | error f =>
        rw [hys] at h
        cases h
      | ok ys =>
        rw [hys] at h
        cases h
        exact ⟨ys, hfirst.trans hok, rfl, rfl⟩
    · exact Or.inl ⟨e, he, hfirst.trans herror⟩

end Source

end FlatScheme
