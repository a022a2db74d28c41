import FlatScheme.Proofs.Reader.Delivery
import FlatScheme.Proofs.Shell.Concatenation
import FlatScheme.Proofs.Shell.LineByLine

/-!
Running a text and evaluating it at the prompt.

A run evaluates each expression as soon as it has been read. At the prompt the whole text is read
before anything is evaluated. Reading does not depend on evaluation, so both have the same
expressions before them, and both stop at the first one that has no value (`Halts`). If the text can
be read they do the same, except that a run prints nothing. If it cannot, nothing is evaluated at the
prompt, while a run has evaluated the expressions in front of the fault.
-/

namespace FlatScheme.Shell

open Source (readAll Delivers delivers_of_readAll_ok delivers_of_readAll_error next_of_readFrom)
open Reader (readFrom_of_lex feed complete resume)

variable {ev : Evaluator} {fuel : Nat} {env : EnvId} {exprs : List Expr} {s s' : Store}
  {vs : List Value} {r : BatchResult}

/-! ### Up to the first expression without a value -/

/-- The expressions are evaluated in order, up to the first that has no value. Those before it have
    the values `vs`, and it ends with `r`; if all have values, the end is `done`. -/
inductive Halts (ev : Evaluator) (fuel : Nat) (env : EnvId) (exprs : List Expr) (s : Store)
    (vs : List Value) : BatchResult → Store → Prop
  | done {s' : Store} (all : Yields ev fuel env exprs s vs s') :
      Halts ev fuel env exprs s vs .done s'
  | error {before rest : List Expr} {e : Expr} {s₁ s' : Store} {x : EvalError}
      (split : exprs = before ++ e :: rest) (values : Yields ev fuel env before s vs s₁)
      (stop : ev.eval fuel e env s₁ = (.error x, s')) : Halts ev fuel env exprs s vs (.error x) s'
  | outOfFuel {before rest : List Expr} {e : Expr} {s₁ s' : Store}
      (split : exprs = before ++ e :: rest) (values : Yields ev fuel env before s vs s₁)
      (stop : ev.eval fuel e env s₁ = (.outOfFuel, s')) :
      Halts ev fuel env exprs s vs .outOfFuel s'

theorem Halts.cons {e : Expr} {s₁ : Store} {v : Value} (first : ev.eval fuel e env s = (.ok v, s₁))
    (h : Halts ev fuel env exprs s₁ vs r s') : Halts ev fuel env (e :: exprs) s (v :: vs) r s' := by
  cases h with
  | done all => exact .done (.cons first all)
  | error split values stop => exact .error (by rw [split]; rfl) (.cons first values) stop
  | outOfFuel split values stop => exact .outOfFuel (by rw [split]; rfl) (.cons first values) stop

theorem exists_halts (ev : Evaluator) (fuel : Nat) (env : EnvId) (exprs : List Expr) (s : Store) :
    ∃ vs r s', Halts ev fuel env exprs s vs r s' := by
  induction exprs generalizing s with
  | nil => exact ⟨[], .done, s, .done (.nil s)⟩
  | cons e exprs ih =>
    rcases heval : ev.eval fuel e env s with ⟨v | x | _, s₁⟩
    · obtain ⟨vs, r, s', h⟩ := ih s₁
      exact ⟨v :: vs, r, s', h.cons heval⟩
    · exact ⟨[], .error x, s₁, .error (List.nil_append _).symm (.nil s) heval⟩
    · exact ⟨[], .outOfFuel, s₁, .outOfFuel (List.nil_append _).symm (.nil s) heval⟩

/-! ### At the prompt -/

/-- Expressions that have values are evaluated and printed, then the others follow. -/
theorem evalEach_append {before : List Expr} {s₁ : Store}
    (h : Yields ev fuel env before s vs s₁) (rest : List Expr) (text : String) :
    evalEach ev fuel env text (before ++ rest) s =
      evalEach ev fuel env (text ++ printed vs) rest s₁ := by
  induction h generalizing text with
  | nil s => simp [printed]
  | cons first _ ih =>
    rw [List.cons_append, evalEach, first]
    dsimp only
    rw [ih]
    simp [printed, String.append_assoc]

def BatchResult.ending : BatchResult → LineEnding
  | .outOfFuel => .outOfFuel
  | _ => .finished

/-- How the prompt reports the end of an evaluation. -/
def BatchResult.report (r : BatchResult) (stdout : String) : LineReport :=
  ⟨r.ending, stdout, (r.message?.map errorLine).getD ""⟩

theorem evalEach_of_halts (h : Halts ev fuel env exprs s vs r s') :
    evalEach ev fuel env "" exprs s = (r.report (printed vs), s') := by
  cases h with
  | done all =>
    rw [evalEach_of_yields all, String.empty_append]
    rfl
  | error split values stop | outOfFuel split values stop =>
    rw [split, evalEach_append values, evalEach, stop, String.empty_append]
    rfl

theorem evalLine_of_halts {text : List Char} (hread : readAll ⟨text, none⟩ = .ok exprs)
    (h : Halts ev fuel env exprs s vs r s') :
    evalLine ev fuel env text s = (r.report (printed vs), s') := by
  rw [evalLine, hread]
  exact evalEach_of_halts h

theorem evalLine_of_fault {text : List Char} {f : Fault}
    (hread : readAll ⟨text, none⟩ = .error f) (s : Store) :
    evalLine ev fuel env text s = (⟨if f.isIncomplete then .incomplete else .finished, "",
      if f.isIncomplete then "" else errorLine f.message⟩, s) := by
  rw [evalLine, hread]
  dsimp only
  split <;> rfl

/-! ### In a run -/

/-- What a run ends with, if evaluation ends with `r` and the source with `stop`. -/
def BatchResult.behind (stop : Stop) : BatchResult → BatchResult
  | .done =>
    match stop with
    | .finish => .done
    | .fault f => .fault f
  | r => r

/-- Expressions that are delivered and have values are evaluated, then the run goes on behind
    them. -/
theorem runBatch_append {before rest : List Expr} {src : Source} {stop : Stop} {s₁ : Store}
    (hsrc : Delivers src (before ++ rest) stop) (h : Yields ev fuel env before s vs s₁) :
    ∃ src', Delivers src' rest stop ∧ runBatch ev fuel env src s = runBatch ev fuel env src' s₁ := by
  induction h generalizing src with
  | nil s => exact ⟨src, hsrc, rfl⟩
  | cons first _ ih =>
    cases hsrc with
    | cons hnext others =>
      obtain ⟨src', hrest, hrun⟩ := ih others
      refine ⟨src', hrest, ?_⟩
      rw [runBatch_eq, hnext]
      dsimp only
      rw [first]
      exact hrun

theorem runBatch_of_halts {src : Source} {stop : Stop} (hsrc : Delivers src exprs stop)
    (h : Halts ev fuel env exprs s vs r s') :
    runBatch ev fuel env src s = (r.behind stop, s') := by
  cases h with
  | done all =>
    rw [← List.append_nil exprs] at hsrc
    obtain ⟨src', hrest, hrun⟩ := runBatch_append hsrc all
    cases hrest with
    | stop hnext =>
      rw [hrun, runBatch_eq, hnext]
      cases stop <;> rfl
  | error split values hend | outOfFuel split values hend =>
    rw [split] at hsrc
    obtain ⟨src', hrest, hrun⟩ := runBatch_append hsrc values
    cases hrest with
    | cons hnext _ =>
      rw [hrun, runBatch_eq, hnext]
      dsimp only
      rw [hend]
      rfl

theorem Halts.behind_finish (h : Halts ev fuel env exprs s vs r s') : r.behind .finish = r := by
  cases h <;> rfl

/-! ### Error lines -/

theorem errorLine_ne_empty (message : String) : errorLine message ≠ "" := by
  intro h
  have hlength := congrArg String.length h
  simp [errorLine] at hlength

theorem errorLine_inj {message message' : String} :
    errorLine message = errorLine message' ↔ message = message' := by
  simp [errorLine]

/-- The report of an end shows the message of that end and nothing else. -/
theorem BatchResult.stderr_report (r : BatchResult) (stdout : String) :
    (∀ message, (r.report stdout).stderr = errorLine message ↔ r.message? = some message) ∧
      ((r.report stdout).stderr = "" ↔ r.message? = none) := by
  unfold report
  cases r.message? with
  | none => simp [(errorLine_ne_empty _).symm]
  | some message => simp [errorLine_inj, errorLine_ne_empty]

/-- A run and the prompt agree on every text. If the text can be read, the prompt does not ask for
    more, leaves the store that a run leaves, prints the values of the expressions before the first
    one that has none, and reports an error exactly if the run ends with it. If the text cannot be
    read, the prompt evaluates nothing and prints nothing but the fault, and not even that if the
    text is incomplete; a run has then evaluated the expressions that are delivered before the fault,
    or has stopped at the first of them that has no value. -/
theorem run_and_line_agree (ev : Evaluator) (fuel : Nat) (env : EnvId) (text : List Char)
    (s : Store) :
    let run := runBatch ev fuel env ⟨text, none⟩ s
    let line := evalLine ev fuel env text s
    (∀ exprs, readAll ⟨text, none⟩ = .ok exprs →
      line.1.ending ≠ .incomplete ∧ (line.1.ending = .outOfFuel ↔ run.1 = .outOfFuel) ∧
      line.2 = run.2 ∧
      (∃ vs, Halts ev fuel env exprs s vs run.1 run.2 ∧ line.1.stdout = printed vs) ∧
      (∀ message, line.1.stderr = errorLine message ↔ run.1.message? = some message) ∧
      (line.1.stderr = "" ↔ run.1.message? = none)) ∧
    (∀ f, readAll ⟨text, none⟩ = .error f →
      (line.1.ending = .incomplete ↔ f.isIncomplete = true) ∧ line.1.ending ≠ .outOfFuel ∧
      line.2 = s ∧ line.1.stdout = "" ∧
      (line.1.stderr = "" ↔ f.isIncomplete = true) ∧
      (f.isIncomplete = false → line.1.stderr = errorLine f.message) ∧
      ∃ exprs vs, Delivers ⟨text, none⟩ exprs (.fault f) ∧
        (run.1 = .fault f ∧ Halts ev fuel env exprs s vs .done run.2 ∨
          run.1 ≠ .done ∧ Halts ev fuel env exprs s vs run.1 run.2)) := by
  intro run line
  constructor
  · intro exprs hread
    obtain ⟨vs, r, s', hhalts⟩ := exists_halts ev fuel env exprs s
    have hrun : run = (r, s') := by
      have h := runBatch_of_halts (delivers_of_readAll_ok hread) hhalts
      rwa [hhalts.behind_finish] at h
    have hline : line = (r.report (printed vs), s') := evalLine_of_halts hread hhalts
    rw [hrun, hline]
    refine ⟨?_, ?_, rfl, ⟨vs, hhalts, rfl⟩, r.stderr_report _⟩
    · cases r <;> simp [BatchResult.report, BatchResult.ending]
    · cases r <;> simp [BatchResult.report, BatchResult.ending]
  · intro f hread
    obtain ⟨exprs, hdelivers⟩ := delivers_of_readAll_error hread
    obtain ⟨vs, r, s', hhalts⟩ := exists_halts ev fuel env exprs s
    have hrun : run = (r.behind (.fault f), s') := runBatch_of_halts hdelivers hhalts
    have hrest : run.1 = .fault f ∧ Halts ev fuel env exprs s vs .done run.2 ∨
        run.1 ≠ .done ∧ Halts ev fuel env exprs s vs run.1 run.2 := by
      rw [hrun]
      cases hhalts with
      | done all => exact .inl ⟨rfl, .done all⟩
      | error split values stop => exact .inr ⟨nofun, .error split values stop⟩
      | outOfFuel split values stop => exact .inr ⟨nofun, .outOfFuel split values stop⟩
    have hline : line = _ := evalLine_of_fault hread s
    rw [hline]
    refine ⟨?_, ?_, rfl, rfl, ?_, ?_, exprs, vs, hdelivers, hrest⟩
    · cases f.isIncomplete <;> simp
    · cases f.isIncomplete <;> simp
    · cases f.isIncomplete <;> simp [errorLine_ne_empty]
    · intro hcomplete
      simp [hcomplete]

/-! ### Samples -/

/-- The text `y w y`. On the sample store `y` has a value and `w` has none. -/
def haltingText : List Char := "y w y".toList

theorem haltingText_readAll :
    readAll ⟨haltingText, none⟩ = .ok [.sym "y", .sym "w", .sym "y"] := by
  have hfirst : Lexer.lex none haltingText = (.ok (.sym "y"), " w y".toList) := by decide +kernel
  have hsecond : Lexer.lex none " w y".toList = (.ok (.sym "w"), " y".toList) := by decide +kernel
  have hthird : Lexer.lex none " y".toList = (.ok (.sym "y"), []) := by decide +kernel
  have hdelivers : Delivers ⟨haltingText, none⟩ [.sym "y", .sym "w", .sym "y"] .finish :=
    .cons (next_of_readFrom (readFrom_of_lex hfirst []))
      (.cons (next_of_readFrom (readFrom_of_lex hsecond []))
        (.cons (next_of_readFrom (readFrom_of_lex hthird [])) (.stop Source.next_nil)))
  exact hdelivers.readAll

/-- The text `(set! y ()))`, an assignment with a stray parenthesis behind it. -/
def strayText : List Char := "(set! y ()))".toList

theorem strayText_delivers : Delivers ⟨strayText, none⟩
    [.list [.sym "set!", .sym "y", .list []]] (.fault (.syntaxError .unexpectedClose)) := by
  have hopen : Lexer.lex none strayText = (.ok .open, "set! y ()))".toList) := by decide +kernel
  have hset : Lexer.lex none "set! y ()))".toList = (.ok (.sym "set!"), " y ()))".toList) := by
    decide +kernel
  have hname : Lexer.lex none " y ()))".toList = (.ok (.sym "y"), " ()))".toList) := by
    decide +kernel
  have hempty : Lexer.lex none " ()))".toList = (.ok .open, ")))".toList) := by decide +kernel
  have hclose : Lexer.lex none ")))".toList = (.ok .close, "))".toList) := by decide +kernel
  have hend : Lexer.lex none "))".toList = (.ok .close, ")".toList) := by decide +kernel
  have hstray : Lexer.lex none ")".toList = (.ok .close, []) := by decide +kernel
  have hlist : Reader.readFrom none [] strayText =
      (.ok (.list [.sym "set!", .sym "y", .list []]), ")".toList) := by
    rw [readFrom_of_lex hopen, feed, resume, readFrom_of_lex hset, feed, complete, resume,
      readFrom_of_lex hname, feed, complete, resume, readFrom_of_lex hempty, feed, resume,
      readFrom_of_lex hclose, feed, complete]
    exact readFrom_of_lex hend _
  exact .cons (next_of_readFrom hlist) (.stop (next_of_readFrom (readFrom_of_lex hstray [])))

/-- The first sample prints one value and reports the error that its run ends with. The second is
    refused at the prompt, while its run has made the assignment. -/
theorem samples_run_and_line_agree :
    readAll ⟨haltingText, none⟩ = .ok [.sym "y", .sym "w", .sym "y"] ∧
    (evalLine ⟨false, 5⟩ 5 0 haltingText Eval.sampleStore).1 =
      ⟨.finished, "#t\n", "error: unbound variable: w\n"⟩ ∧
    (runBatch ⟨false, 5⟩ 5 0 ⟨haltingText, none⟩ Eval.sampleStore).1.message? =
      some "unbound variable: w" ∧
    readAll ⟨strayText, none⟩ = .error (.syntaxError .unexpectedClose) ∧
    (evalLine ⟨false, 5⟩ 5 0 strayText Eval.sampleStore).2 = Eval.sampleStore ∧
    (runBatch ⟨false, 5⟩ 5 0 ⟨strayText, none⟩ Eval.sampleStore).2 =
      Eval.sampleStore.bind 0 "y" .nil := by
  have hline : (evalLine ⟨false, 5⟩ 5 0 haltingText Eval.sampleStore).1 =
      ⟨.finished, "#t\n", "error: unbound variable: w\n"⟩ := by
    rw [evalLine, haltingText_readAll]
    rfl
  have hstray : readAll ⟨strayText, none⟩ = .error (.syntaxError .unexpectedClose) :=
    strayText_delivers.readAll
  obtain ⟨-, -, -, -, hmessage, -⟩ :=
    (run_and_line_agree ⟨false, 5⟩ 5 0 haltingText Eval.sampleStore).1 _ haltingText_readAll
  obtain ⟨-, -, hkept, -⟩ :=
    (run_and_line_agree ⟨false, 5⟩ 5 0 strayText Eval.sampleStore).2 _ hstray
  refine ⟨haltingText_readAll, hline, ?_, hstray, hkept, ?_⟩
  · exact (hmessage "unbound variable: w").mp (congrArg LineReport.stderr hline)
  · exact congrArg Prod.snd (runBatch_of_halts strayText_delivers (.done (.cons rfl (.nil _))))

end FlatScheme.Shell
