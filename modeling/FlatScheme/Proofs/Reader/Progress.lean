import FlatScheme.Proofs.Reader.LookAhead
import FlatScheme.Proofs.Shell.LineAndBatch

/-!
Every call of the reader comes to an end and makes progress.

An expression costs a character, and so does a syntax error: a token or the mark of a comment has been
read before anything can be found wrong (`Costs`). The end of the input and a failure of the stream may
be found again and again.

A program that reads a stream asks for one expression after the other and does something with each
(`drive`). It asks for the last time when the answer is no expression, or before that, if it has a
result, so it asks at most once more than there are characters.
-/

namespace FlatScheme

open Lexer (lex)

/-- Is it a syntax error, and not the end of the input or a failure of the stream? -/
def Stop.IsSyntaxError : Stop → Prop
  | .fault (.syntaxError _) => True
  | .fault (.stream _) => False
  | .finish => False

/-- Is it a result or a syntax error? -/
def Costs {α : Type} : Except Stop α → Prop
  | .ok _ => True
  | .error stop => stop.IsSyntaxError

namespace Lexer

variable {failure : Option String}

/-- Outside of block comments something has to be read before anything is found. -/
theorem seek_shorter {region : Region} (hregion : ∀ outer, region ≠ .block outer) {cs : List Char}
    (h : Costs (seek failure region cs).1) : (seek failure region cs).2.length < cs.length := by
  fun_induction seek failure region cs with
  | case1 cs =>
    -- the mark of the comment has been read, whatever is found in it
    have hle := (seek_length failure (.block 0) cs).1
    simp only [List.length_cons]
    omega
  | case2 cs ih => exact Nat.lt_succ_of_lt (ih (by simp) h)
  | case3 => exact h.elim
  | case4 c cs _ _ _ _ ih => exact Nat.lt_succ_of_lt (ih (by simp) h)
  | case5 => exact Nat.lt_succ_self _
  | case6 c cs ih =>
    refine Nat.lt_succ_of_lt (ih ?_ h)
    split <;> simp
  | case15 | case16 => cases failure <;> exact h.elim
  | case7 | case8 | case9 | case10 | case11 | case12 | case13 | case14 => exact absurd rfl (hregion _)

theorem lex_shorter {cs : List Char} (h : Costs (lex failure cs).1) :
    (lex failure cs).2.length < cs.length := by
  have hseek := @seek_shorter failure .code (by simp) cs
  unfold lex at h ⊢
  split at h
  · next c rest heq =>
    rw [heq] at hseek
    exact Nat.lt_of_le_of_lt (scan_length failure c rest) (hseek trivial)
  · next stop rest heq =>
    rw [heq] at hseek
    exact hseek h

end Lexer

theorem Reader.resume_suffix (failure : Option String) (progress : Progress) (rest : List Char) :
    (resume failure progress rest).2 <:+ rest := by
  cases progress with
  | done x => exact List.suffix_refl _
  | more stack => exact (readFrom_consumes stack rest).suffix
  | bad e => exact List.suffix_refl _

namespace Source

open Reader (readFrom_eq resume_suffix)

/-- An expression and a syntax error cost a character. -/
theorem next_shorter {src : Source} (h : Costs src.next.1) :
    src.next.2.unread.length < src.unread.length := by
  have hlex := @Lexer.lex_shorter src.failure src.unread
  have hnext := next_of_readFrom (readFrom_eq src.failure [] src.unread)
  rcases heq : lex src.failure src.unread with ⟨(_ | f) | t, rest⟩
  · rw [heq] at hnext
    rw [hnext] at h
    exact h.elim
  · rw [heq] at hnext hlex
    rw [hnext] at h ⊢
    exact hlex h
  · rw [heq] at hnext hlex
    rw [hnext]
    exact Nat.lt_of_le_of_lt (resume_suffix _ _ rest).length_le (hlex trivial)

end Source

namespace Parser

variable {p q r : Parser}

/-! ### Calls on one parser -/

/-- The parser after some calls of `next`, whatever they returned. -/
def after (p : Parser) : Nat → Option Parser
  | 0 => some p
  | n + 1 => do
    let q ← p.after n
    let (_, r) ← q.next
    some r

theorem after_succ {n : Nat} {answer : Except Stop Expr} (hafter : p.after n = some q)
    (hnext : q.next = some (answer, r)) : p.after (n + 1) = some r := by
  rw [after, hafter, Option.bind_eq_bind, Option.bind_some, hnext]
  rfl

theorem exists_after (hp : p.lookAhead = none) (n : Nat) :
    ∃ q, p.after n = some q ∧ Leaves p q := by
  induction n with
  | zero => exact ⟨p, rfl, .refl hp⟩
  | succ n ih =>
    obtain ⟨q, hafter, hq⟩ := ih
    obtain ⟨answer, r, hnext, hr, -⟩ := next_spec hq.lookAhead
    exact ⟨r, after_succ hafter hnext, hq.trans hr⟩

/-! ### Whole streams -/

/-- Ask for expressions and act on each, until this has a result or something else is returned. `none`
    is a loop that has not come to its end after so many calls of `next`. -/
def drive {σ ρ : Type} (act : σ → Expr → Except ρ σ) (close : σ → Stop → ρ) :
    Nat → σ → Parser → Option ρ
  | 0, _, _ => none
  | calls + 1, s, p => do
    match ← p.next with
    | (.error stop, _) => some (close s stop)
    | (.ok x, q) =>
      match act s x with
      | .error result => some result
      | .ok s' => drive act close calls s' q

/-- All expressions of the stream. -/
def readAll (calls : Nat) (p : Parser) : Option (Except Fault (List Expr)) :=
  drive (fun done x => .ok (x :: done)) (fun done stop => stop.collected done.reverse) calls [] p

/-- Evaluate the expressions of the stream one after the other. -/
def runBatch (ev : Evaluator) (fuel : Nat) (env : EnvId) (calls : Nat) (p : Parser) (s : Store) :
    Option (Shell.BatchResult × Store) :=
  drive
    (fun s x =>
      match ev.eval fuel x env s with
      | (.ok _, s') => .ok s'
      | (.error err, s') => .error (.error err, s')
      | (.outOfFuel, s') => .error (.outOfFuel, s'))
    (fun s stop => (Shell.BatchResult.done.behind stop, s)) calls s p

/-- A loop over the source that asks and acts in this way comes to the same, and one call more than
    there are characters is enough. -/
theorem drive_eq {σ ρ : Type} {act : σ → Expr → Except ρ σ} {close : σ → Stop → ρ}
    (loop : σ → Source → ρ)
    (hloop : ∀ s src, loop s src =
      match src.next with
      | (.error stop, _) => close s stop
      | (.ok x, rest) =>
        match act s x with
        | .error result => result
        | .ok s' => loop s' rest)
    (hp : p.lookAhead = none) (s : σ) {calls : Nat} (hcalls : p.source.unread.length < calls) :
    drive act close calls s p = some (loop s p.source) := by
  induction calls generalizing p s with
  | zero => exact absurd hcalls (Nat.not_lt_zero _)
  | succ calls ih =>
    obtain ⟨answer, q, hcall, hq, hnext⟩ := next_spec hp
    rw [drive, hcall, hloop, hnext]
    cases answer with
    | error stop => rfl
    | ok x =>
      -- there is one call less, and at least one character less
      have hlength := Source.next_length hnext
      cases hact : act s x with
      | error result => simp [hact]
      | ok s' => simp [hact, ih hq.lookAhead s' (by omega)]

theorem readAll_eq (hp : p.lookAhead = none) {calls : Nat}
    (hcalls : p.source.unread.length < calls) : readAll calls p = some p.source.readAll := by
  refine drive_eq (fun done src => src.readRest done) ?_ hp [] hcalls
  intro done src
  rw [Source.readRest_eq]
  rcases src.next with ⟨(_ | _) | _, rest⟩ <;> rfl

theorem runBatch_eq (ev : Evaluator) (fuel : Nat) (env : EnvId) (hp : p.lookAhead = none) (s : Store)
    {calls : Nat} (hcalls : p.source.unread.length < calls) :
    runBatch ev fuel env calls p s = some (Shell.runBatch ev fuel env p.source s) := by
  refine drive_eq (fun s src => Shell.runBatch ev fuel env src s) ?_ hp s hcalls
  intro s src
  rw [Shell.runBatch_eq]
  rcases src.next with ⟨(_ | _) | x, rest⟩
  · rfl
  · rfl
  · dsimp only
    rcases ev.eval fuel x env s with ⟨_ | _ | _, s'⟩ <;> rfl

/-- Every call returns, makes progress and keeps no token. Let a parser start on a stream of any bytes,
    which ends or fails behind them. Whatever has been returned before, a call of `next` returns, and
    the source returns the same. No token is kept, and what is unread then is an end of what was unread
    before the call, in bytes and in characters: a shorter one if an expression or a syntax error was
    returned. So reading all expressions and running them, whatever comes of evaluating them, take at
    most one call more than there are characters, and there are no more characters than bytes. -/
theorem every_call_returns_and_advances (bytes : List UInt8) (failure : Option String) :
    let start : Parser := ⟨bytes, failure, none⟩
    (∀ n, ∃ p answer q, start.after n = some p ∧ p.next = some (answer, q) ∧
      start.after (n + 1) = some q ∧ p.source.next = (answer, q.source) ∧ q.lookAhead = none ∧
      q.unread <:+ p.unread ∧ q.source.unread <:+ p.source.unread ∧
      ((∃ x, answer = .ok x) ∨ (∃ e, answer = .error (.fault (.syntaxError e))) →
        q.unread.length < p.unread.length ∧
          q.source.unread.length < p.source.unread.length)) ∧
    start.source.unread.length ≤ bytes.length ∧
    ∀ calls, start.source.unread.length + 1 ≤ calls →
      start.readAll calls = some start.source.readAll ∧
      ∀ ev fuel env s,
        start.runBatch ev fuel env calls s = some (Shell.runBatch ev fuel env start.source s) := by
  intro start
  refine ⟨?_, Text.length_decode_le bytes, ?_⟩
  · intro n
    obtain ⟨p, hafter, hp⟩ := exists_after (p := start) rfl n
    obtain ⟨answer, q, hcall, hq, hnext⟩ := next_spec hp.lookAhead
    have hchars := (Source.next_consumes p.source).suffix
    rw [hnext] at hchars
    refine ⟨p, answer, q, hafter, hcall, after_succ hafter hcall, hnext, hq.lookAhead, hq.suffix,
      hchars, ?_⟩
    intro hanswer
    have hcosts : Costs p.source.next.1 := by
      rw [hnext]
      rcases hanswer with ⟨x, rfl⟩ | ⟨e, rfl⟩
      · trivial
      · trivial
    have hshorter := Source.next_shorter hcosts
    rw [hnext] at hshorter
    exact ⟨hq.length_lt hshorter, hshorter⟩
  · intro calls hcalls
    refine ⟨readAll_eq rfl hcalls, ?_⟩
    intro ev fuel env s
    exact runBatch_eq ev fuel env rfl s hcalls

/-- The bytes of an opening parenthesis, a quote mark, a NUL, a byte that begins no character, and a
    closing parenthesis. -/
def cutQuote : List UInt8 := [0x28, 0x27, 0x00, 0xff, 0x29]

/-- The NUL is an early end. It has been read, and the two bytes behind it are left. Reading all
    expressions comes to the same error, long before the sixth call. -/
theorem cutQuote_call_advances :
    (∃ q, next ⟨cutQuote, some "read failed", none⟩ =
      some (.error (.fault (.syntaxError .unexpectedEnd)), q) ∧
      q.lookAhead = none ∧ q.source.unread = ['\ufffd', ')'] ∧ q.unread <:+ cutQuote ∧
      q.unread.length < cutQuote.length) ∧
    readAll 6 ⟨cutQuote, some "read failed", none⟩ =
      some (.error (.syntaxError .unexpectedEnd)) := by
  obtain ⟨hcalls, hlength, hloops⟩ := every_call_returns_and_advances cutQuote (some "read failed")
  obtain ⟨p, answer, q, hafter, hcall, -, hnext, hkept, hsuffix, -, hshorter⟩ := hcalls 0
  cases hafter
  have hopen : lex (some "read failed") (Text.decode cutQuote) =
      (.ok .open, ['\x27', '\x00', '\ufffd', ')']) := by decide +kernel
  have hquote : lex (some "read failed") ['\x27', '\x00', '\ufffd', ')'] =
      (.ok .quote, ['\x00', '\ufffd', ')']) := by decide +kernel
  have hnul : lex (some "read failed") ['\x00', '\ufffd', ')'] =
      (.error .finish, ['\ufffd', ')']) := by decide +kernel
  have hread : Source.next ⟨Text.decode cutQuote, some "read failed"⟩ =
      (.error (.fault (.syntaxError .unexpectedEnd)), ⟨['\ufffd', ')'], some "read failed"⟩) := by
    refine Source.next_of_readFrom ?_
    rw [Reader.readFrom_of_lex hopen, Reader.feed, Reader.resume, Reader.readFrom_of_lex hquote,
      Reader.feed, Reader.resume, Reader.readFrom_eq, hnul]
    rfl
  obtain ⟨rfl, hsource⟩ := Prod.mk.inj (hread.symm.trans hnext)
  refine ⟨⟨q, hcall, hkept, ?_, hsuffix, (hshorter (.inr ⟨_, rfl⟩)).1⟩, ?_⟩
  · rw [← hsource]
  · rw [(hloops 6 (Nat.succ_le_succ hlength)).1, Source.readAll, Source.readRest_eq]
    exact congrArg some (by rw [source, chars, hread])

end Parser

end FlatScheme
