import FlatScheme.Proofs.Eval.Limits
import FlatScheme.Proofs.Reader.LineEnd
import FlatScheme.Shell.Command

/-!
Running one text after another is running both as one text, with a newline between them.

The reader takes an expression of the first text as soon as it is complete, and the newline ends
whatever word or line comment the text may break off in. So up to the last expression of the first
text the two runs read the same expressions (`readFrom_cut`). If the text as a whole can be read,
its end leaves the reader between tokens with nothing begun, and from there on it reads the second
text as if that stood alone. A run that stops in the first text stops there in both cases.
-/

namespace FlatScheme.Shell

open Reader (readFrom readFrom_cut readFrom_eq_readAt readFrom_blank readAt)
open Source (readAll readRest collect collect_readAt_end readRest_eq_collect next_of_readFrom)
open Text (nul)

/-- Go on with another run if the first one is done. -/
def andThen (first : BatchResult × Store) (other : Store → BatchResult × Store) :
    BatchResult × Store :=
  match first with
  | (.done, s) => other s
  | stopped => stopped

/-- A run depends on its source only through the next expression and what is left behind it. -/
theorem runBatch_eq (ev : Evaluator) (fuel : Nat) (env : EnvId) (src : Source) (s : Store) :
    runBatch ev fuel env src s =
      match src.next with
      | (.error .finish, _) => (.done, s)
      | (.error (.fault f), _) => (.fault f, s)
      | (.ok e, rest) =>
        match ev.eval fuel e env s with
        | (.ok _, s') => runBatch ev fuel env rest s'
        | (.error err, s') => (.error err, s')
        | (.outOfFuel, s') => (.outOfFuel, s') := by
  rw [runBatch]
  split
  · next heq => rw [heq]
  · next heq => rw [heq]
  · next e rest heq =>
    rcases heval : ev.eval fuel e env s with ⟨_ | _ | _, s'⟩ <;> simp only [heq, heval]

theorem runBatch_append_newline {u v : List Char} {done xs : List Expr} (hnul : nul ∉ u)
    (hread : readRest ⟨u, none⟩ done = .ok xs) (ev : Evaluator) (fuel : Nat) (env : EnvId)
    (s : Store) :
    runBatch ev fuel env ⟨u ++ '\n' :: v, none⟩ s =
      andThen (runBatch ev fuel env ⟨u, none⟩ s) (runBatch ev fuel env ⟨v, none⟩) := by
  -- induction on the length of the first text, one expression at a time
  induction hn : u.length using Nat.strong_induction_on generalizing u done s with
  | _ n ih =>
    cases readFrom_cut [] u hnul with
    | found x rest hrest hfound =>
      have hself : readFrom none [] u = (.ok x, rest) := by simpa using hfound [] trivial
      have hfirst : Source.next ⟨u, none⟩ = (.ok x, ⟨rest, none⟩) := next_of_readFrom hself
      have hwhole : Source.next ⟨u ++ '\n' :: v, none⟩ = (.ok x, ⟨rest ++ '\n' :: v, none⟩) :=
        next_of_readFrom (hfound _ (.newline v))
      rw [runBatch_eq, runBatch_eq, hfirst, hwhole]
      dsimp only
      rcases ev.eval fuel x env s with ⟨value | err | _, s'⟩
      · rw [readRest_eq_collect, hself] at hread
        exact ih rest.length (hn ▸ Reader.readFrom_length hself) hrest hread s' rfl
      · rfl
      · rfl
    | refused hrefused =>
      obtain ⟨e, rest, -, hbad⟩ := hrefused [] trivial
      rw [List.append_nil] at hbad
      rw [readRest_eq_collect, hbad] at hread
      cases hread
    | pause p hpause =>
      -- nothing has been begun, or the first text could not be read
      have hself : readFrom none [] u = readAt p [] := by simpa using hpause [] trivial
      obtain rfl : p = (.code, []) := by
        rw [readRest_eq_collect, hself] at hread
        rcases collect_readAt_end p done (.inl rfl) with ⟨hp, -⟩ | ⟨e, -, herror⟩
        · exact hp
        · rw [herror] at hread
          cases hread
      have hfirst : Source.next ⟨u, none⟩ = (.error .finish, ⟨[], none⟩) := next_of_readFrom hself
      have hwhole : Source.next ⟨u ++ '\n' :: v, none⟩ = Source.next ⟨v, none⟩ := by
        have hread := hpause _ (.newline v)
        rw [← readFrom_eq_readAt, readFrom_blank (by decide)] at hread
        rw [next_of_readFrom hread]
        rfl
      rw [runBatch_eq, hwhole, ← runBatch_eq, runBatch_eq ev fuel env ⟨u, none⟩, hfirst]
      rfl

/-! ### Files -/

/-- What the command reports of a run over the text of a path. -/
def reportOn (path : String) : BatchResult → Option Report
  | .done => some .quiet
  | stopped => stopped.message?.map fun message => .failure programName (path ++ ": " ++ message)

theorem runFiles_cons {host : Host} {path : String} {text : List Char}
    (hopen : host.openFile path = .ok ⟨text, none⟩) (ev : Evaluator) (fuel : Nat) (env : EnvId)
    (paths : List String) (s : Store) :
    runFiles ev fuel host env (path :: paths) s =
      match runBatch ev fuel env ⟨text, none⟩ s with
      | (.done, s') => runFiles ev fuel host env paths s'
      | (stopped, _) => reportOn path stopped := by
  rw [runFiles, hopen]
  dsimp only
  rcases runBatch ev fuel env ⟨text, none⟩ s with ⟨_ | _ | _ | _, s'⟩ <;> rfl

/-- The files of the command are run as one text, with a newline between any two of them, if all but
    the last can be read. Only the path that an error is reported on depends on the division. -/
theorem runFiles_eq_runBatch {host : Host} {files : List (String × List Char)} (hfiles : files ≠ [])
    (hopen : ∀ f ∈ files, host.openFile f.1 = .ok ⟨f.2, none⟩)
    (htexts : ∀ f ∈ files.dropLast, nul ∉ f.2 ∧ ∃ xs, readAll ⟨f.2, none⟩ = .ok xs)
    (ev : Evaluator) (fuel : Nat) (env : EnvId) (s : Store) :
    ∃ path ∈ files.map Prod.fst, runFiles ev fuel host env (files.map Prod.fst) s =
      reportOn path
        (runBatch ev fuel env ⟨['\n'].intercalate (files.map Prod.snd), none⟩ s).1 := by
  induction files generalizing s with
  | nil => exact absurd rfl hfiles
  | cons file files ih =>
    obtain ⟨hfirst, hothers⟩ := List.forall_mem_cons.mp hopen
    rw [List.map_cons, runFiles_cons hfirst]
    cases files with
    | nil =>
      have hwhole : ['\n'].intercalate ([file].map Prod.snd) = file.2 := by simp
      refine ⟨file.1, List.mem_cons_self, ?_⟩
      rw [hwhole]
      rcases runBatch ev fuel env ⟨file.2, none⟩ s with ⟨_ | _ | _ | _, s'⟩ <;> rfl
    | cons other files =>
      have hwhole : ['\n'].intercalate ((file :: other :: files).map Prod.snd) =
          file.2 ++ '\n' :: ['\n'].intercalate ((other :: files).map Prod.snd) := by simp
      rw [List.dropLast_cons_cons, List.forall_mem_cons] at htexts
      obtain ⟨⟨hnul, xs, hread⟩, htexts⟩ := htexts
      rw [hwhole, runBatch_append_newline hnul hread]
      rcases runBatch ev fuel env ⟨file.2, none⟩ s with ⟨_ | _ | _ | _, s'⟩
      · obtain ⟨path, hpath, hreport⟩ := ih (List.cons_ne_nil _ _) hothers htexts s'
        exact ⟨path, List.mem_cons_of_mem _ hpath, hreport⟩
      all_goals exact ⟨file.1, List.mem_cons_self, rfl⟩

/-- Running files in sequence equals running their concatenation. Take a text without NULs that can
    be read, and any text behind a newline after it. A run over the whole ends as a run over the
    first text followed, only if that is done, by a run over the second: with the same error or
    none, and with the same store. So the command, given the two texts as files, reports what
    comes of the whole. -/
theorem run_concatenation {u : List Char} {xs : List Expr} (hnul : nul ∉ u)
    (hread : readAll ⟨u, none⟩ = .ok xs) (v : List Char) (ev : Evaluator) (fuel : Nat) (env : EnvId)
    (s : Store) :
    runBatch ev fuel env ⟨u ++ '\n' :: v, none⟩ s =
      andThen (runBatch ev fuel env ⟨u, none⟩ s) (runBatch ev fuel env ⟨v, none⟩) ∧
    ∀ (host : Host) (first second : String), host.openFile first = .ok ⟨u, none⟩ →
      host.openFile second = .ok ⟨v, none⟩ →
      ∃ path ∈ [first, second], runFiles ev fuel host env [first, second] s =
        reportOn path (runBatch ev fuel env ⟨u ++ '\n' :: v, none⟩ s).1 := by
  refine ⟨runBatch_append_newline hnul hread ev fuel env s, ?_⟩
  intro host first second hfirst hsecond
  have hwhole : ['\n'].intercalate [u, v] = u ++ '\n' :: v := by simp
  rw [← hwhole]
  refine @runFiles_eq_runBatch host [(first, u), (second, v)] (List.cons_ne_nil _ _) ?_ ?_ ev fuel
    env s
  · simp [hfirst, hsecond]
  · simp only [List.dropLast_cons_cons, List.dropLast_singleton, List.mem_singleton, forall_eq]
    exact ⟨hnul, xs, hread⟩

/-! ### A sample -/

/-- The text `y;z` breaks off in a line comment. -/
theorem next_brokenLine :
    Source.next ⟨['y', ';', 'z'], none⟩ = (.ok (.sym "y"), ⟨[';', 'z'], none⟩) ∧
    Source.next ⟨[';', 'z'], none⟩ = (.error .finish, ⟨[], none⟩) := by
  have hname : Lexer.lex none ['y', ';', 'z'] = (.ok (.sym "y"), [';', 'z']) := by decide +kernel
  exact ⟨next_of_readFrom (Reader.readFrom_of_lex hname []),
    next_of_readFrom (Reader.readFrom_eq none [] _)⟩

/-- A run over `y;z` and another one over `w`, where `y` has a value and `w` has none, end as the run
    over both: the line comment does not reach into the second text. -/
theorem brokenLine_concatenation :
    readAll ⟨['y', ';', 'z'], none⟩ = .ok [.sym "y"] ∧
    runBatch ⟨false, 5⟩ 5 0 ⟨['y', ';', 'z', '\n', 'w'], none⟩ Eval.sampleStore =
      (.error (.unbound "w"), Eval.sampleStore) := by
  obtain ⟨hname, hcomment⟩ := next_brokenLine
  have hread : readAll ⟨['y', ';', 'z'], none⟩ = .ok [.sym "y"] := by
    rw [readAll, Source.readRest_eq, hname]
    dsimp only
    rw [Source.readRest_eq, hcomment]
    rfl
  have hfirst : runBatch ⟨false, 5⟩ 5 0 ⟨['y', ';', 'z'], none⟩ Eval.sampleStore =
      (.done, Eval.sampleStore) := by
    have hvalue : Evaluator.eval ⟨false, 5⟩ 5 (.sym "y") 0 Eval.sampleStore =
        (.ok (.bool true), Eval.sampleStore) := rfl
    rw [runBatch_eq, hname]
    dsimp only
    rw [hvalue]
    dsimp only
    rw [runBatch_eq, hcomment]
  have hsecond : runBatch ⟨false, 5⟩ 5 0 ⟨['w'], none⟩ Eval.sampleStore =
      (.error (.unbound "w"), Eval.sampleStore) := by
    have hlex : Lexer.lex none ['w'] = (.ok (.sym "w"), []) := by decide +kernel
    rw [runBatch_eq, next_of_readFrom (Reader.readFrom_of_lex hlex [])]
    rfl
  have hwhole := (run_concatenation (by decide) hread ['w'] ⟨false, 5⟩ 5 0 Eval.sampleStore).1
  rw [hfirst] at hwhole
  exact ⟨hread, hwhole.trans hsecond⟩

end FlatScheme.Shell
