import FlatScheme.Proofs.Shell.LineAndBatch

/-!
Streams that fail.

A stream may fail behind its text instead of ending there. Looking ahead does not show the difference:
behind a boolean, or inside a block comment, a failure looks like the end of the input. But nothing is
decided by that look, and the next character that is asked for is the failure.

So on a text without NULs the reader gives one of three answers (`Reports`): an expression, a syntax
error that is not for lack of text, or the failure itself. The first two cost a character, so from some
call on the failure is the only answer. It is never taken for the end of the input.
-/

namespace FlatScheme

namespace Lexer

open Text (nul continuesName)

/-- How reading may end on a stream that fails for `reason`: with a result or with a syntax error that
    is not for lack of text, leaving fewer than `n` characters, or with the failure, leaving none. -/
inductive Reports {α : Type} (reason : String) (n : Nat) : Except Stop α × List Char → Prop
  | found {a : α} {rest : List Char} (h : rest.length < n) : Reports reason n (.ok a, rest)
  | wrong {e : SyntaxError} {rest : List Char} (he : e.isIncomplete = false)
      (h : rest.length < n) : Reports reason n (bad e, rest)
  | failed : Reports reason n (.error (.fault (.stream reason)), [])

variable {α : Type} {reason : String} {m n : Nat}

theorem Reports.mono {r : Except Stop α × List Char} (h : Reports reason m r) (hle : m ≤ n) :
    Reports reason n r := by
  cases h with
  | found h => exact .found (by omega)
  | wrong he h => exact .wrong he (by omega)
  | failed => exact .failed

theorem Reports.ne_finish {r : Except Stop α × List Char} (h : Reports reason n r) :
    r.1 ≠ .error .finish := by
  cases h with
  | found => exact ok_ne_finish _
  | wrong => exact fault_ne_finish _
  | failed => exact fault_ne_finish _

theorem Reports.of_fault {r : Except Stop α × List Char} {f : Fault} (h : Reports reason n r)
    (hf : r.1 = .error (.fault f)) :
    f.isIncomplete = false ∧ ∀ other, f = .stream other → other = reason := by
  cases h with
  | found => cases hf
  | wrong he =>
    cases hf
    exact ⟨he, nofun⟩
  | failed =>
    cases hf
    refine ⟨rfl, ?_⟩
    rintro other ⟨⟩
    rfl

theorem Reports.length_le {r : Except Stop α × List Char} (h : Reports reason n r) :
    r.2.length ≤ n - 1 := by
  cases h with
  | found h => exact Nat.le_pred_of_lt h
  | wrong he h => exact Nat.le_pred_of_lt h
  | failed => exact Nat.zero_le _

/-- Where there is nothing to read there is the failure. -/
theorem Reports.eq_failed {r : Except Stop α × List Char} (h : Reports reason 0 r) :
    r = (.error (.fault (.stream reason)), []) := by
  cases h with
  | found h => exact absurd h (Nat.not_lt_zero _)
  | wrong he h => exact absurd h (Nat.not_lt_zero _)
  | failed => rfl

/-! ### Tokens -/

theorem seek_reports (region : Region) {cs : List Char} (hnul : nul ∉ cs) :
    Reports reason cs.length (seek (some reason) region cs) := by
  fun_induction seek (some reason) region cs with
  | case1 cs ih | case7 outer cs ih | case8 cs ih | case9 outer cs ih =>
    exact (ih (by simp_all)).mono (by simp only [List.length_cons]; omega)
  | case2 cs ih | case4 c cs _ _ _ _ ih | case6 c cs ih | case13 outer c cs _ _ _ _ _ _ ih =>
    exact (ih (by simp_all)).mono (by simp only [List.length_cons]; omega)
  | case10 | case11 => simp [nul] at hnul
  | case3 | case12 => simp at hnul
  | case5 => exact .found (by simp)
  | case14 | case15 | case16 => exact .failed

theorem scanString_reports (part : StringPart) (done : List Char) {cs : List Char}
    (hnul : nul ∉ cs) : Reports reason (cs.length + 1) (scanString (some reason) part done cs) := by
  fun_induction scanString (some reason) part done cs with
  | case1 => simp at hnul
  | case2 => exact .found (by simp only [List.length_cons]; omega)
  | case3 done cs _ _ ih | case4 done c cs _ _ _ ih | case6 done cs ih | case7 done c cs _ _ _ ih
  | case10 code done cs ih | case12 code done c cs _ _ _ _ ih =>
    exact (ih (by simp_all)).mono (by simp only [List.length_cons]; omega)
  | case8 | case11 | case13 => exact .wrong rfl (by simp only [List.length_cons]; omega)
  | case5 | case9 | case14 => exact .failed

/-- A word that the stream fails behind is lost; any other is judged. -/
theorem scanWord_reports {make : List Char → Except Stop Token} (hmake : Judges make) (c : Char)
    (cs : List Char) : Reports reason (cs.length + 1) (scanWord (some reason) make c cs) := by
  have hlength := scanWord_length (some reason) make c cs
  unfold scanWord at hlength ⊢
  split
  · exact .failed
  · next d rest heq =>
    simp only [heq] at hlength
    rcases hmake (c :: cs.takeWhile continuesName) with ⟨t, ht⟩ | ⟨e, he, hbad⟩
    · rw [ht]
      exact .found (by omega)
    · rw [hbad]
      exact .wrong he (by omega)

theorem scanBool_reports (b : Bool) (letter : Char) (cs : List Char) :
    Reports reason (cs.length + 1) (scanBool b letter cs) := by
  have hlength := scanBool_length b letter cs
  revert hlength
  fun_cases scanBool b letter cs with
  | case1 | case3 =>
    intro hlength
    exact .found (Nat.lt_succ_of_le hlength)
  | case2 =>
    intro hlength
    exact .wrong rfl (Nat.lt_succ_of_le hlength)

theorem scanHash_reports (cs : List Char) :
    Reports reason (cs.length + 1) (scanHash (some reason) cs) := by
  fun_cases scanHash (some reason) cs with
  | case1 => exact .failed
  | case2 cs | case3 cs => exact (scanBool_reports _ _ cs).mono (by simp)
  | case4 => exact .found (by simp only [List.length_cons]; omega)
  | case5 => exact .wrong rfl (by simp only [List.length_cons]; omega)

theorem scan_reports (c : Char) {cs : List Char} (hnul : nul ∉ cs) :
    Reports reason (cs.length + 1) (scan (some reason) c cs) := by
  have hname : Judges asName := fun _ => .inl ⟨_, rfl⟩
  have hnumber : Judges fun word => bad (.invalidNumber word) := fun _ => .inr ⟨_, rfl, rfl⟩
  unfold scan
  split_ifs
  · exact .found (Nat.lt_succ_self _)
  · exact .found (Nat.lt_succ_self _)
  · exact .found (Nat.lt_succ_self _)
  · exact scanString_reports .plain [] hnul
  · exact scanHash_reports cs
  · exact scanWord_reports (judges_asNumber hname) c cs
  · exact scanWord_reports (judges_asNumber hnumber) c cs
  · exact scanWord_reports hname c cs
  · exact .wrong rfl (Nat.lt_succ_self _)

theorem lex_reports {cs : List Char} (hnul : nul ∉ cs) :
    Reports reason cs.length (lex (some reason) cs) := by
  have hseek : Reports reason cs.length (seek (some reason) .code cs) := seek_reports .code hnul
  have hconsumes : Consumes (some reason) cs (seek (some reason) .code cs) := seek_consumes .code cs
  unfold lex
  split
  · next c rest heq =>
    rw [heq] at hseek hconsumes
    have hrest : nul ∉ rest := fun hmem => hnul (hconsumes.suffix.subset hmem)
    cases hseek with
    | found h => exact (scan_reports c hrest).mono h
  · next stop rest heq =>
    rw [heq] at hseek
    cases hseek with
    | wrong he h => exact .wrong he h
    | failed => exact .failed

end Lexer

/-! ### Expressions -/

open Lexer (Reports Consumes lex lex_reports lex_consumes bad)
open Text (nul)

theorem Reader.readFrom_reports {reason : String} (stack : List Reader.Frame) {cs : List Char}
    (hnul : nul ∉ cs) : Reports reason cs.length (readFrom (some reason) stack cs) := by
  have hlex : Reports reason cs.length (lex (some reason) cs) := lex_reports hnul
  have hconsumes : Consumes (some reason) cs (lex (some reason) cs) := lex_consumes cs
  fun_induction readFrom (some reason) stack cs with
  | case1 stack cs t rest heq =>
    rw [heq] at hlex
    cases hlex with
    | found h => exact .found h
  | case2 stack cs t rest heq stack' hfeed ih =>
    rw [heq] at hlex hconsumes
    have hrest : nul ∉ rest := fun hmem => hnul (hconsumes.suffix.subset hmem)
    cases hlex with
    | found h => exact (ih hrest (lex_reports hrest) (lex_consumes rest)).mono (by omega)
  | case3 stack cs t rest heq e hfeed =>
    rw [heq] at hlex
    cases hlex with
    | found h =>
      rw [Reader.eq_unexpectedClose_of_feed hfeed]
      exact .wrong rfl h
  | case4 stack cs rest heq =>
    rw [heq] at hlex
    exact absurd rfl hlex.ne_finish
  | case5 stack cs f rest heq =>
    rw [heq] at hlex
    cases hlex with
    | wrong he h => exact .wrong he h
    | failed => exact .failed

namespace Source

open Shell (runBatch exists_halts runBatch_of_halts BatchResult)

variable {src : Source} {reason : String}

/-! ### Calls on one source -/

theorem next_reports (hfailure : src.failure = some reason) (hnul : nul ∉ src.unread) :
    Reports reason src.unread.length (src.next.1, src.next.2.unread) := by
  have hread : Reports reason src.unread.length (Reader.readFrom (some reason) [] src.unread) :=
    Reader.readFrom_reports [] hnul
  rw [← hfailure] at hread
  exact hread

theorem failure_after (src : Source) (n : Nat) : (src.after n).failure = src.failure := by
  induction n with
  | zero => rfl
  | succ n ih => exact ih

/-- Every call answers in one of the three ways, also after errors. -/
theorem next_after_reports (hfailure : src.failure = some reason) (hnul : nul ∉ src.unread)
    (n : Nat) :
    Reports reason (src.after n).unread.length
      ((src.after n).next.1, (src.after (n + 1)).unread) := by
  refine next_reports ?_ ?_
  · rw [failure_after, hfailure]
  · intro hmem
    exact hnul ((after_suffix src n).subset hmem)

/-- Every call uses up a character, as long as there are any. -/
theorem length_unread_after_le (hfailure : src.failure = some reason) (hnul : nul ∉ src.unread)
    (n : Nat) : (src.after n).unread.length ≤ src.unread.length - n := by
  induction n with
  | zero => exact Nat.le_refl _
  | succ n ih =>
    have hleft := (next_after_reports hfailure hnul n).length_le
    dsimp only at hleft
    omega

/-- Where nothing is left, every call returns the failure. -/
theorem next_after_used_up (hfailure : src.failure = some reason) (hnul : nul ∉ src.unread)
    {n k : Nat} (hused : (src.after n).unread = []) (hle : n ≤ k) :
    (src.after k).unread = [] ∧ (src.after k).next.1 = .error (.fault (.stream reason)) := by
  have hempty : (src.after k).unread = [] := by
    induction hle with
    | refl => exact hused
    | @step k _ ih =>
      have hreports := next_after_reports hfailure hnul k
      rw [ih] at hreports
      exact congrArg Prod.snd hreports.eq_failed
  have hreports := next_after_reports hfailure hnul k
  rw [hempty] at hreports
  exact ⟨hempty, congrArg Prod.fst hreports.eq_failed⟩

/-! ### Whole inputs -/

/-- What is delivered ends with a fault that is not for lack of text. -/
theorem exists_delivers_fault (hfailure : src.failure = some reason) (hnul : nul ∉ src.unread) :
    ∃ xs f, Delivers src xs (.fault f) ∧ f.isIncomplete = false := by
  obtain ⟨xs, stop, hdelivers⟩ := exists_delivers src
  have hreports := next_after_reports hfailure hnul xs.length
  have hstop := hdelivers.next_after.2
  cases stop with
  | finish => exact absurd hstop hreports.ne_finish
  | fault f => exact ⟨xs, f, hdelivers, (hreports.of_fault hstop).1⟩

/-- A run over what is delivered in front of a fault is not done, and ends with that fault if with
    any. -/
theorem runBatch_of_delivers_fault {xs : List Expr} {f : Fault} (h : Delivers src xs (.fault f))
    (ev : Evaluator) (fuel : Nat) (env : EnvId) (s : Store) :
    (runBatch ev fuel env src s).1 ≠ .done ∧
      ∀ g, (runBatch ev fuel env src s).1 = .fault g → g = f := by
  obtain ⟨vs, r, s', hhalts⟩ := exists_halts ev fuel env xs s
  rw [runBatch_of_halts h hhalts]
  cases hhalts with
  | done all => simp [BatchResult.behind, eq_comm]
  | error split values stop => simp [BatchResult.behind]
  | outOfFuel split values stop => simp [BatchResult.behind]

/-- A failure of the stream is never taken for the end of the input. Let a stream fail behind bytes
    without a NUL. No call of `next`, also after errors, returns the end of the input or an error
    for lack of text. Once the bytes are used up, and they are after as many calls as there are
    characters, every call returns the failure. So reading one expression fails unless `next`
    returns one, reading all of them fails, and a run is not done; and none of the faults is for lack
    of text. -/
theorem failure_never_taken_for_end (bytes : List UInt8) (hbytes : 0 ∉ bytes) (reason : String) :
    let src : Source := ⟨Text.decode bytes, some reason⟩
    (∀ n, (src.after n).next.1 ≠ .error .finish ∧
      ∀ f, (src.after n).next.1 = .error (.fault f) →
        f.isIncomplete = false ∧ ∀ other, f = .stream other → other = reason) ∧
    (∀ n, (src.after n).unread = [] →
      ∀ k, n ≤ k → (src.after k).next.1 = .error (.fault (.stream reason))) ∧
    (src.after src.unread.length).unread = [] ∧
    ((∃ x, src.next.1 = .ok x ∧ src.readOne = .ok x) ∨
      ∃ f, src.readOne = .error f ∧ f.isIncomplete = false) ∧
    (∃ f, src.readAll = .error f ∧ f.isIncomplete = false) ∧
    (∀ ev fuel env s, (runBatch ev fuel env src s).1 ≠ .done ∧
      ∀ f, (runBatch ev fuel env src s).1 = .fault f → f.isIncomplete = false) := by
  intro src
  have hnul : nul ∉ src.unread := by
    intro hmem
    rcases Text.zero_mem_of_nul_mem hmem with h | h
    · exact List.not_mem_nil h
    · exact hbytes h
  obtain ⟨xs, f, hdelivers, hf⟩ := exists_delivers_fault rfl hnul
  refine ⟨?_, ?_, ?_, ?_, ?_, ?_⟩
  · intro n
    have hreports := next_after_reports rfl hnul n
    exact ⟨hreports.ne_finish, fun g hg => hreports.of_fault hg⟩
  · intro n hused k hle
    exact (next_after_used_up rfl hnul hused hle).2
  · have hlength := length_unread_after_le rfl hnul src.unread.length
    rw [Nat.sub_self] at hlength
    exact List.eq_nil_of_length_eq_zero (Nat.le_zero.mp hlength)
  · have hreports := next_reports rfl hnul
    unfold readOne
    rcases hnext : src.next.1 with (_ | g) | x
    · exact absurd hnext hreports.ne_finish
    · exact .inr ⟨g, rfl, (hreports.of_fault hnext).1⟩
    · exact .inl ⟨x, rfl, rfl⟩
  · exact ⟨f, hdelivers.readAll, hf⟩
  · intro ev fuel env s
    obtain ⟨hdone, hfault⟩ := runBatch_of_delivers_fault hdelivers ev fuel env s
    refine ⟨hdone, ?_⟩
    intro g hg
    rw [hfault g hg]
    exact hf

/-- The bytes of `#t #|`: a boolean, and a block comment that is not closed. -/
def unclosed : List UInt8 := [0x23, 0x74, 0x20, 0x23, 0x7c]

/-- On a stream that fails behind the unclosed comment, the boolean is read, and all there is to say
    of the comment is that the stream has failed. -/
theorem unclosed_failure_reported : 0 ∉ unclosed ∧
    next ⟨Text.decode unclosed, some "read failed"⟩ =
      (.ok (.quoted (.bool true)), ⟨[' ', '#', '|'], some "read failed"⟩) ∧
    (∀ k, 2 ≤ k → (after ⟨Text.decode unclosed, some "read failed"⟩ k).next.1 =
      .error (.fault (.stream "read failed"))) ∧
    ∃ f, readAll ⟨Text.decode unclosed, some "read failed"⟩ = .error f ∧
      f.isIncomplete = false := by
  have hnul : 0 ∉ unclosed := by decide
  have hdecode : Text.decode unclosed = ['#', 't', ' ', '#', '|'] := by decide
  have hbool : next ⟨Text.decode unclosed, some "read failed"⟩ =
      (.ok (.quoted (.bool true)), ⟨[' ', '#', '|'], some "read failed"⟩) := by
    have hlex : lex (some "read failed") ['#', 't', ' ', '#', '|'] =
        (.ok (.bool true), [' ', '#', '|']) := by decide +kernel
    rw [hdecode, next, Reader.readFrom_eq, hlex]
    rfl
  have hcomment : (after ⟨Text.decode unclosed, some "read failed"⟩ 2).unread = [] := by
    have hlex : lex (some "read failed") [' ', '#', '|'] =
        (.error (.fault (.stream "read failed")), []) := by decide +kernel
    rw [after_succ hbool, after, after, next, Reader.readFrom_eq, hlex]
  obtain ⟨-, hused, -, -, hall, -⟩ := failure_never_taken_for_end unclosed hnul "read failed"
  exact ⟨hnul, hbool, hused 2 hcomment, hall⟩

end Source

end FlatScheme
