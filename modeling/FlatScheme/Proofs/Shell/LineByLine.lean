import FlatScheme.Proofs.Eval.Limits
import FlatScheme.Proofs.Reader.LineEnd
import FlatScheme.Shell.Repl

/-!
Typing a text line by line does what evaluating it as a whole does.

The loop evaluates its pending text as soon as that can be read, and asks for more as long as it is
incomplete. So a text is evaluated in portions, and where the portions end depends on where its
lines break. If the text as a whole can be read, no break does harm: each portion is incomplete, or
it holds the next expressions and what is left holds the others (`readAll_of_readAll_append`). If
moreover all expressions have values, the loop prints these values and nothing else, and it ends
with the same store and with nothing pending.
-/

namespace FlatScheme.Shell

open Reader (readFrom_of_lex feed complete resume)
open Source (readAll readAll_append_newline readAll_of_readAll_append)
open Text (nul isBlank)

variable {ev : Evaluator} {fuel : Nat} {env : EnvId}

/-! ### Evaluating expressions that have values -/

/-- The expressions have the given values, one after the other. -/
inductive Yields (ev : Evaluator) (fuel : Nat) (env : EnvId) :
    List Expr → Store → List Value → Store → Prop
  | nil (s : Store) : Yields ev fuel env [] s [] s
  | cons {e : Expr} {rest : List Expr} {s s₁ s' : Store} {v : Value} {vs : List Value}
    (first : ev.eval fuel e env s = (.ok v, s₁)) (others : Yields ev fuel env rest s₁ vs s') :
    Yields ev fuel env (e :: rest) s (v :: vs) s'

/-- Values as the shell prints them, each on a line of its own. -/
def printed (vs : List Value) : String := String.join (vs.map (·.text ++ "\n"))

theorem printed_append (vs ws : List Value) : printed (vs ++ ws) = printed vs ++ printed ws := by
  simp [printed]

theorem evalEach_of_yields {exprs : List Expr} {s s' : Store} {vs : List Value}
    (h : Yields ev fuel env exprs s vs s') (before : String) :
    evalEach ev fuel env before exprs s = (⟨.finished, before ++ printed vs, ""⟩, s') := by
  induction h generalizing before with
  | nil s => simp [evalEach, printed]
  | cons first _ ih =>
    rw [evalEach, first]
    dsimp only
    rw [ih]
    simp [printed, String.append_assoc]

theorem Yields.split {xs ys : List Expr} {s s' : Store} {vs : List Value}
    (h : Yields ev fuel env (xs ++ ys) s vs s') :
    ∃ us ws s₁, Yields ev fuel env xs s us s₁ ∧ Yields ev fuel env ys s₁ ws s' ∧ vs = us ++ ws := by
  induction xs generalizing s vs with
  | nil => exact ⟨[], vs, s, .nil s, h, rfl⟩
  | cons x xs ih =>
    cases h with
    | cons first others =>
      obtain ⟨us, ws, s₁, hus, hws, rfl⟩ := ih others
      exact ⟨_ :: us, ws, s₁, .cons first hus, hws, rfl⟩

theorem evalLine_of_yields {text : List Char} {exprs : List Expr} {s s' : Store} {vs : List Value}
    (hread : readAll ⟨text, none⟩ = .ok exprs) (h : Yields ev fuel env exprs s vs s') :
    evalLine ev fuel env text s = (⟨.finished, printed vs, ""⟩, s') := by
  rw [evalLine, hread]
  dsimp only
  rw [evalEach_of_yields h, String.empty_append]

theorem evalLine_of_incomplete {text : List Char} {e : SyntaxError}
    (hread : readAll ⟨text, none⟩ = .error (.syntaxError e)) (he : e.isIncomplete = true)
    (s : Store) : evalLine ev fuel env text s = (⟨.incomplete, "", ""⟩, s) := by
  rw [evalLine, hread]
  dsimp only
  rw [Fault.isIncomplete, if_pos he]

theorem readRest_blanks {cs : List Char} (h : cs.all isBlank = true) (rest : List Char)
    (done : List Expr) :
    Source.readRest ⟨cs ++ rest, none⟩ done = Source.readRest ⟨rest, none⟩ done := by
  induction cs with
  | nil => rfl
  | cons c cs ih =>
    rw [List.all_cons, Bool.and_eq_true] at h
    rw [← ih h.2, Source.readRest_eq_collect, Source.readRest_eq_collect, List.cons_append,
      Reader.readFrom_blank h.1]

namespace Repl

/-- Between lines the pending text has no NULs, and it cannot be read unless it is empty. -/
structure Waiting (r : Repl) : Prop where
  nul_free : nul ∉ r.pending
  unread : r.pending = [] ∨ ∃ f, readAll ⟨r.pending, none⟩ = .error f

theorem start_waiting (history : History) : (start history).Waiting :=
  ⟨List.not_mem_nil, Or.inl rfl⟩

/-- One line: if the pending text, the line and the text behind it can be read together, and all
    their expressions have values, then the loop prints the first few of these values, and what is
    then pending can be read together with the text behind the line and has the other values. -/
theorem feed_of_readAll {r : Repl} {line rest : List Char} {exprs : List Expr} {vs : List Value}
    {s s' : Store} (hwaiting : r.Waiting) (hline : nul ∉ line)
    (hread : readAll ⟨r.pending ++ line ++ '\n' :: rest, none⟩ = .ok exprs)
    (h : Yields ev fuel env exprs s vs s') :
    ∃ (ending : LineEnding) (us : List Value) (r₁ : Repl) (s₁ : Store),
      r.feed ev fuel env line s = (⟨ending, printed us, ""⟩, r₁, s₁) ∧ ending ≠ .outOfFuel ∧
      r₁.Waiting ∧ ∃ exprs₁ ws, readAll ⟨r₁.pending ++ rest, none⟩ = .ok exprs₁ ∧
        Yields ev fuel env exprs₁ s₁ ws s' ∧ vs = us ++ ws := by
  have hnul : nul ∉ r.pending ++ line := by simp [hwaiting.nul_free, hline]
  unfold feed
  split
  · next hblank =>
    -- a blank line with nothing pending
    rw [Bool.and_eq_true, List.isEmpty_iff] at hblank
    obtain ⟨hpending, hblank⟩ := hblank
    refine ⟨.finished, [], r, s, rfl, by simp, hwaiting, exprs, vs, ?_, h, rfl⟩
    rw [hpending, List.nil_append] at hread ⊢
    rwa [readAll, readRest_blanks hblank, Source.readRest_newline] at hread
  · rcases readAll_of_readAll_append hnul hread with ⟨e, he, hfirst⟩ | ⟨xs, ys, hxs, hys, rfl⟩
    · -- the portion is incomplete, and stays pending
      refine ⟨.incomplete, [], { r with pending := r.pending ++ line ++ ['\n'] }, s, ?_, by simp,
        ⟨by simpa [nul] using hnul, Or.inr ⟨_, hfirst⟩⟩, exprs, vs, ?_, h, rfl⟩
      · dsimp only
        rw [evalLine_of_incomplete hfirst he]
        rfl
      · rwa [List.append_assoc, List.singleton_append]
    · -- the portion is evaluated, and nothing stays pending
      obtain ⟨us, ws, s₁, hus, hws, rfl⟩ := h.split
      refine ⟨.finished, us,
        ⟨[], r.history.remember (String.ofList (Text.trim (r.pending ++ line ++ ['\n'])))⟩, s₁, ?_,
        by simp, ⟨List.not_mem_nil, Or.inl rfl⟩, ys, ws, hys, hws, rfl⟩
      dsimp only
      rw [evalLine_of_yields hxs hus]

/-! ### The whole loop -/

/-- A round of the loop: the prompt, and what came of the line. -/
structure Round where
  prompt : String
  report : LineReport

/-- The rounds of the loop over some lines, and how they leave loop and store. -/
def rounds (r : Repl) (ev : Evaluator) (fuel : Nat) (env : EnvId) :
    List (List Char) → Store → List Round × Repl × Store
  | [], s => ([], r, s)
  | line :: rest, s =>
    match r.feed ev fuel env line s with
    | (report, r₁, s₁) =>
      match r₁.rounds ev fuel env rest s₁ with
      | (others, r₂, s₂) => (⟨r.prompt, report⟩ :: others, r₂, s₂)

/-- The loop prints the prompts of its rounds and what comes of their lines. -/
theorem run_eq_rounds {r r' : Repl} {lines : List (List Char)} {s s' : Store} {turns : List Round}
    (h : r.rounds ev fuel env lines s = (turns, r', s'))
    (hfuel : ∀ t ∈ turns, t.report.ending ≠ .outOfFuel) (stdout stderr : String) :
    run ev fuel env stdout stderr r lines s =
      some (⟨stdout ++ String.join (turns.map fun t => t.prompt ++ t.report.stdout) ++ r'.prompt ++
          farewell, stderr ++ String.join (turns.map fun t => t.report.stderr), r'.history⟩,
        s') := by
  induction lines generalizing r s turns stdout stderr with
  | nil =>
    cases h
    simp [run]
  | cons line rest ih =>
    rcases hfeed : r.feed ev fuel env line s with ⟨report, r₁, s₁⟩
    rcases hrest : r₁.rounds ev fuel env rest s₁ with ⟨others, r₂, s₂⟩
    simp only [rounds, hfeed, hrest, Prod.mk.injEq] at h
    obtain ⟨rfl, rfl, rfl⟩ := h
    rw [List.forall_mem_cons] at hfuel
    rw [run, hfeed]
    dsimp only
    rw [if_neg hfuel.1, ih hrest hfuel.2]
    simp [String.append_assoc]

/-- The whole loop, from a pending text that is to be continued. -/
theorem rounds_of_readAll {r : Repl} {lines : List (List Char)} {exprs : List Expr}
    {vs : List Value} {s s' : Store} (hwaiting : r.Waiting)
    (hlines : ∀ line ∈ lines, nul ∉ line)
    (hread : readAll ⟨r.pending ++ lines.flatMap (· ++ ['\n']), none⟩ = .ok exprs)
    (h : Yields ev fuel env exprs s vs s') :
    ∃ turns r', r.rounds ev fuel env lines s = (turns, r', s') ∧ r'.pending = [] ∧
      (∀ t ∈ turns, t.report.ending ≠ .outOfFuel ∧ t.report.stderr = "") ∧
      String.join (turns.map fun t => t.report.stdout) = printed vs := by
  induction lines generalizing r s exprs vs with
  | nil =>
    rw [List.flatMap_nil, List.append_nil] at hread
    rcases hwaiting.unread with hpending | ⟨f, hf⟩
    · rw [hpending, readAll, Source.readRest_nil] at hread
      cases hread
      cases h
      exact ⟨[], r, rfl, hpending, List.forall_mem_nil _, rfl⟩
    · rw [hf] at hread
      cases hread
  | cons line lines ih =>
    have hsplit : r.pending ++ (line :: lines).flatMap (· ++ ['\n']) =
        r.pending ++ line ++ '\n' :: lines.flatMap (· ++ ['\n']) := by simp
    rw [hsplit] at hread
    rw [List.forall_mem_cons] at hlines
    obtain ⟨ending, us, r₁, s₁, hfeed, hending, hwaiting₁, exprs₁, ws, hread₁, h₁, rfl⟩ :=
      feed_of_readAll hwaiting hlines.1 hread h
    obtain ⟨others, r', hrest, hpending, hclean, hprinted⟩ := ih hwaiting₁ hlines.2 hread₁ h₁
    refine ⟨⟨r.prompt, ⟨ending, printed us, ""⟩⟩ :: others, r', ?_, hpending,
      List.forall_mem_cons.mpr ⟨⟨hending, rfl⟩, hclean⟩, ?_⟩
    · rw [rounds, hfeed]
      dsimp only
      rw [hrest]
    · rw [List.map_cons, String.join_cons, hprinted, printed_append]

end Repl

theorem join_eq_empty {texts : List String} (h : ∀ text ∈ texts, text = "") :
    String.join texts = "" := by
  induction texts with
  | nil => rfl
  | cons text texts ih =>
    rw [List.forall_mem_cons] at h
    rw [String.join_cons, h.1, ih h.2, String.empty_append]

theorem flatMap_newline {lines : List (List Char)} (h : lines ≠ []) :
    lines.flatMap (· ++ ['\n']) = ['\n'].intercalate lines ++ ['\n'] := by
  induction lines with
  | nil => exact absurd rfl h
  | cons line lines ih =>
    cases lines with
    | nil => simp
    | cons next lines =>
      rw [List.flatMap_cons, ih (List.cons_ne_nil _ _), List.intercalate_cons_cons]
      simp only [List.append_assoc]

/-- If a text without NULs can be read and all its expressions have values, then the loop over its
    lines prints the same as the evaluation of the whole text, apart from the prompts, reports no
    error, and ends with the same store and with nothing pending. -/
theorem line_by_line_eq_whole (ev : Evaluator) (fuel : Nat) (env : EnvId) (history : History)
    (lines : List (List Char)) (s s' : Store) (exprs : List Expr) (vs : List Value)
    (hnul : nul ∉ ['\n'].intercalate lines)
    (hread : readAll ⟨['\n'].intercalate lines, none⟩ = .ok exprs)
    (h : Yields ev fuel env exprs s vs s') :
    ∃ turns r, (Repl.start history).rounds ev fuel env lines s = (turns, r, s') ∧
      r.pending = [] ∧ (∀ t ∈ turns, t.report.stderr = "") ∧
      evalLine ev fuel env (['\n'].intercalate lines) s =
        (⟨.finished, String.join (turns.map fun t => t.report.stdout), ""⟩, s') ∧
      Repl.run ev fuel env "" "" (Repl.start history) lines s =
        some (⟨String.join (turns.map fun t => t.prompt ++ t.report.stdout) ++ r.prompt ++
          Repl.farewell, "", r.history⟩, s') := by
  have hall : nul ∉ lines.flatMap (· ++ ['\n']) ∧
      readAll ⟨lines.flatMap (· ++ ['\n']), none⟩ = .ok exprs := by
    by_cases hempty : lines = []
    · rw [hempty] at hread ⊢
      exact ⟨List.not_mem_nil, hread⟩
    · rw [flatMap_newline hempty]
      exact ⟨by simpa [nul] using hnul, readAll_append_newline hnul hread⟩
  have hlines : ∀ line ∈ lines, nul ∉ line := fun line hline hmem =>
    hall.1 (List.mem_flatMap.mpr ⟨line, hline, List.mem_append_left _ hmem⟩)
  obtain ⟨turns, r, hrounds, hpending, hclean, hprinted⟩ :=
    Repl.rounds_of_readAll (Repl.start_waiting history) hlines hall.2 h
  have hsilent : String.join (turns.map fun t => t.report.stderr) = "" :=
    join_eq_empty (List.forall_mem_map.mpr fun t ht => (hclean t ht).2)
  refine ⟨turns, r, hrounds, hpending, fun t ht => (hclean t ht).2, ?_, ?_⟩
  · rw [hprinted]
    exact evalLine_of_yields hread h
  · rw [Repl.run_eq_rounds hrounds fun t ht => (hclean t ht).1, hsilent, String.empty_append,
      String.empty_append]

/-! ### A sample -/

/-- The lines `(define y '(` and `)) y`: the first breaks off inside a quoted list, and the second
    begins with the rest of it. -/
def sampleLines : List (List Char) := ["(define y '(".toList, ")) y".toList]

/-- What the sample lines hold. -/
def sampleExprs : List Expr := [.list [.sym "define", .sym "y", .quoted .nil], .sym "y"]

theorem sampleLines_readAll :
    readAll ⟨['\n'].intercalate sampleLines, none⟩ = .ok sampleExprs := by
  have htext : ['\n'].intercalate sampleLines = '(' :: "define y '(\n)) y".toList := by decide
  have hdefine : Lexer.lex none "define y '(\n)) y".toList =
      (.ok (.sym "define"), " y '(\n)) y".toList) := by decide +kernel
  have hname : Lexer.lex none " y '(\n)) y".toList =
      (.ok (.sym "y"), " '(\n)) y".toList) := by decide +kernel
  have hquote : Lexer.lex none " '(\n)) y".toList = (.ok .quote, "(\n)) y".toList) := by
    decide +kernel
  have hopen : Lexer.lex none "(\n)) y".toList = (.ok .open, "\n)) y".toList) := by decide +kernel
  have hclose : Lexer.lex none "\n)) y".toList = (.ok .close, ") y".toList) := by decide +kernel
  have hend : Lexer.lex none ") y".toList = (.ok .close, " y".toList) := by decide +kernel
  have hlast : Lexer.lex none " y".toList = (.ok (.sym "y"), []) := by decide +kernel
  have hfirst : Reader.readFrom none [] (['\n'].intercalate sampleLines) =
      (.ok (.list [.sym "define", .sym "y", .quoted .nil]), " y".toList) := by
    rw [htext, readFrom_of_lex (Lexer.lex_open _), feed, resume, readFrom_of_lex hdefine, feed,
      complete, resume, readFrom_of_lex hname, feed, complete, resume, readFrom_of_lex hquote, feed,
      resume, readFrom_of_lex hopen, feed, resume, readFrom_of_lex hclose, feed, complete]
    exact readFrom_of_lex hend _
  have hsecond : Reader.readFrom none [] " y".toList = (.ok (.sym "y"), []) :=
    readFrom_of_lex hlast []
  rw [readAll, Source.readRest_eq_collect, hfirst, Source.collect, Source.readRest_eq_collect,
    hsecond, Source.collect, Source.readRest_nil]
  rfl

/-- The sample lines, typed one after the other, define `y` and print it. -/
theorem sampleLines_line_by_line :
    nul ∉ ['\n'].intercalate sampleLines ∧
    readAll ⟨['\n'].intercalate sampleLines, none⟩ = .ok sampleExprs ∧
    ∃ turns r, (Repl.start []).rounds ⟨false, 5⟩ 5 0 sampleLines Eval.sampleStore =
        (turns, r, Eval.sampleStore.bind 0 "y" .nil) ∧ r.pending = [] ∧
      evalLine ⟨false, 5⟩ 5 0 (['\n'].intercalate sampleLines) Eval.sampleStore =
        (⟨.finished, String.join (turns.map fun t => t.report.stdout), ""⟩,
          Eval.sampleStore.bind 0 "y" .nil) := by
  have hnul : nul ∉ ['\n'].intercalate sampleLines := by decide
  have hyields : Yields ⟨false, 5⟩ 5 0 sampleExprs Eval.sampleStore [.sym "y", .nil]
      (Eval.sampleStore.bind 0 "y" .nil) := .cons rfl (.cons rfl (.nil _))
  obtain ⟨turns, r, hrounds, hpending, _, hline, _⟩ :=
    line_by_line_eq_whole ⟨false, 5⟩ 5 0 [] sampleLines Eval.sampleStore _ sampleExprs _ hnul
      sampleLines_readAll hyields
  exact ⟨hnul, sampleLines_readAll, turns, r, hrounds, hpending, hline⟩

end FlatScheme.Shell
