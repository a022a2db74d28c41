import FlatScheme.Proofs.Reader.EndOfInput
import FlatScheme.Proofs.Reader.Grammar
import FlatScheme.Proofs.Text.Utf8

/-!
Reading by recursive descent, with a token of look-ahead.

The automaton of `Reader` keeps what it has begun on a stack and looks at no token before it takes it.
A *parser* reads a stream of bytes with procedures that call each other: `datum` reads a datum, and
`items` the rest of a list. To see whether a list ends, `items` looks at the next token, which is kept
until it is taken. Nothing in the text of the procedures bounds their calls, so they are given fuel: a
call has one unit less for the calls that it makes, and `none` is a call that has run out of it.

The parser is the automaton, with calls in place of the stack. Whatever the automaton has begun, it
comes to what a call of the parser returns, handed over to the top of the stack (`Agrees`). The proof is
by induction on the fuel: `datum` takes a token before it makes a call, and `items` makes one call in
between, so fuel for two calls a byte is enough, and more changes nothing (`follows`). Every call
returns, then, and leaves an end of the bytes and no token that has been looked at (`next_spec`).
-/

namespace FlatScheme

open Lexer (lex lex_consumes lex_token_length Consumes)
open Reader (complete feed finish owe readFrom readFrom_eq resume complete_owe)

/-- What reads a stream: the bytes not yet read, the reason why the stream fails behind them, if it does
    not end there, and the token that has been looked at and not taken, if there is one. -/
structure Parser where
  unread : List UInt8
  failure : Option String
  lookAhead : Option Token

namespace Parser

/-- The unread bytes as characters. -/
def chars (p : Parser) : List Char := Text.decode p.unread

/-- What is left to read, but for a token that has been looked at. -/
def source (p : Parser) : Source := ⟨p.chars, p.failure⟩

/-- Read on until the characters `rest` are left. -/
def leave (p : Parser) (rest : List Char) : Parser :=
  { p with unread := Text.dropChars (p.chars.length - rest.length) p.unread }

/-- Keep a token that has been looked at. -/
def keep (p : Parser) (t : Token) : Parser := { p with lookAhead := some t }

/-- Take a token: the one that has been looked at, or else the next one of the stream. -/
def token (p : Parser) : Except Stop Token × Parser :=
  match p.lookAhead with
  | some t => (.ok t, { p with lookAhead := none })
  | none => ((lex p.failure p.chars).1, p.leave (lex p.failure p.chars).2)

/-- Look at a token. -/
def peek (p : Parser) : Except Stop Token × Parser :=
  match p.token with
  | (.ok t, q) => (.ok t, q.keep t)
  | (.error stop, q) => (.error stop, q)

/-- What the end of the input is in front of a datum: at the top it is the end, and anywhere else it
    comes too early. -/
def ending (top : Bool) : Stop := if top then .finish else .fault (.syntaxError .unexpectedEnd)

mutual

/-- Read a datum. -/
def datum : Nat → Bool → Parser → Option (Except Stop Expr × Parser)
  | 0, _, _ => none
  | fuel + 1, top, p =>
    match p.token with
    | (.error .finish, q) => some (.error (ending top), q)
    | (.error (.fault f), q) => some (.error (.fault f), q)
    | (.ok (.num n), q) => some (.ok (.num n), q)
    | (.ok (.str s), q) => some (.ok (.str s), q)
    | (.ok (.sym x), q) => some (.ok (.sym x), q)
    | (.ok (.bool b), q) => some (.ok (.quoted (.bool b)), q)
    | (.ok .open, q) => items fuel [] q
    | (.ok .close, q) => some (.error (.fault (.syntaxError .unexpectedClose)), q)
    | (.ok .quote, q) => do
      let (answer, r) ← datum fuel false q
      some (answer.map fun x => .quoted x.datum, r)
    | (.ok .skip, q) => do
      match ← datum fuel false q with
      | (.ok _, r) => datum fuel top r
      | (.error stop, r) => some (.error stop, r)

/-- Read the rest of a list behind some items, which are kept in reverse. -/
def items : Nat → List Expr → Parser → Option (Except Stop Expr × Parser)
  | 0, _, _ => none
  | fuel + 1, before, p =>
    match p.peek with
    | (.error .finish, q) => some (.error (.fault (.syntaxError .unbalanced)), q)
    | (.error (.fault f), q) => some (.error (.fault f), q)
    | (.ok .close, q) => some (.ok (.list before.reverse), q.token.2)
    | (.ok _, q) => do
      match ← datum fuel false q with
      | (.ok x, r) => items fuel (x :: before) r
      | (.error stop, r) => some (.error stop, r)

end

/-- Read the next expression, with fuel for two calls a byte. -/
def next (p : Parser) : Option (Except Stop Expr × Parser) := datum (2 * p.unread.length + 1) true p

variable {p q r : Parser}

/-! ### What is left -/

/-- A parser `p` may come to `q`: the stream is the same, an end of its bytes is left, and no token has
    been looked at. -/
structure Leaves (p q : Parser) : Prop where
  lookAhead : q.lookAhead = none
  failure : q.failure = p.failure
  suffix : q.unread <:+ p.unread

theorem Leaves.refl (h : p.lookAhead = none) : Leaves p p := ⟨h, rfl, List.suffix_refl _⟩

theorem Leaves.trans (hpq : Leaves p q) (hqr : Leaves q r) : Leaves p r :=
  ⟨hqr.lookAhead, hqr.failure.trans hpq.failure, hqr.suffix.trans hpq.suffix⟩

theorem Leaves.length_le (h : Leaves p q) : q.unread.length ≤ p.unread.length := h.suffix.length_le

/-- Where there are fewer characters there are fewer bytes. -/
theorem Leaves.length_lt (h : Leaves p q) (hchars : q.chars.length < p.chars.length) :
    q.unread.length < p.unread.length := by
  refine Nat.lt_of_le_of_ne h.length_le ?_
  intro hlength
  rw [chars, h.suffix.eq_of_length hlength] at hchars
  exact Nat.lt_irrefl _ hchars

/-! ### Tokens -/

theorem chars_leave {rest : List Char} (h : rest <:+ p.chars) : (p.leave rest).chars = rest := by
  rw [chars, leave, Text.decode_dropChars]
  exact (List.suffix_iff_eq_drop.mp h).symm

/-- Where no token has been looked at, the next one of the stream is taken. -/
theorem exists_token (hp : p.lookAhead = none) {found : Except Stop Token} {rest : List Char}
    (hlex : lex p.failure p.chars = (found, rest)) :
    ∃ q, p.token = (found, q) ∧ Leaves p q ∧ q.chars = rest := by
  have hconsumes : Consumes p.failure p.chars (lex p.failure p.chars) := lex_consumes p.chars
  rw [hlex] at hconsumes
  refine ⟨p.leave rest, ?_, ⟨hp, rfl, Text.dropChars_suffix _ _⟩, chars_leave hconsumes.suffix⟩
  rw [token, hp, hlex]

theorem token_keep (hp : p.lookAhead = none) (t : Token) : (p.keep t).token = (.ok t, p) := by
  cases p
  cases hp
  rfl

theorem peek_of_token {t : Token} (h : p.token = (.ok t, q)) : p.peek = (.ok t, q.keep t) := by
  rw [peek, h]

theorem peek_of_stop {stop : Stop} (h : p.token = (.error stop, q)) : p.peek = (.error stop, q) := by
  rw [peek, h]

/-- A list ends at the token that has been looked at. -/
theorem items_close (hq : q.lookAhead = none) (h : p.token = (.ok .close, q)) (fuel : Nat)
    (before : List Expr) : items (fuel + 1) before p = some (.ok (.list before.reverse), q) := by
  rw [items, peek_of_token h]
  dsimp only
  rw [token_keep hq]

/-- A list goes on with the token that has been looked at. -/
theorem items_token {t : Token} (h : p.token = (.ok t, q)) (ht : t ≠ .close) (fuel : Nat)
    (before : List Expr) : items (fuel + 1) before p = (do
      match ← datum fuel false (q.keep t) with
      | (.ok x, r) => items fuel (x :: before) r
      | (.error stop, r) => some (.error stop, r)) := by
  rw [items, peek_of_token h]
  cases t with
  | close => exact absurd rfl ht
  | _ => rfl

/-! ### Calls and the stack -/

/-- What the automaton comes to when a datum has been read, or something else has been found, with
    `stack` begun. -/
def handOver (failure : Option String) (stack : List Reader.Frame) :
    Except Stop Expr → List Char → Except Stop Expr × List Char
  | .ok x, rest => resume failure (complete stack x) rest
  | .error stop, rest => (.error stop, rest)

theorem handOver_nil (failure : Option String) (answer : Except Stop Expr) (rest : List Char) :
    handOver failure [] answer rest = (answer, rest) := by
  cases answer <;> rfl

theorem handOver_owe (failure : Option String) (stack : List Reader.Frame) (answer : Except Stop Expr)
    (rest : List Char) :
    handOver failure (owe stack) answer rest = handOver failure stack answer rest := by
  cases answer with
  | ok x => rw [handOver, complete_owe, handOver]
  | error stop => rfl

/-- A call on `p` returns, and the automaton, with `stack` begun, comes to what it returns. -/
def Agrees (p : Parser) (stack : List Reader.Frame) (automaton : Except Stop Expr × List Char)
    (call : Option (Except Stop Expr × Parser)) : Prop :=
  ∃ answer q, call = some (answer, q) ∧ Leaves p q ∧
    automaton = handOver p.failure stack answer q.chars

theorem Agrees.of_leaves {stack : List Reader.Frame} {automaton : Except Stop Expr × List Char}
    {call : Option (Except Stop Expr × Parser)} (h : Agrees q stack automaton call)
    (hpq : Leaves p q) : Agrees p stack automaton call := by
  obtain ⟨answer, r, hcall, hr, hsame⟩ := h
  exact ⟨answer, r, hcall, hpq.trans hr, by rwa [hpq.failure] at hsame⟩

/-- The calls on `p` agree with the automaton. In front of a datum no list may be open that could end
    there: the end of the input means the same on the stack as in the call. -/
structure Follows (fuel : Nat) (p : Parser) : Prop where
  datum (top : Bool) (stack : List Reader.Frame) (h : finish stack = ending top) :
    Agrees p stack (readFrom p.failure stack p.chars) (datum fuel top p)
  items (before : List Expr) (stack : List Reader.Frame) :
    Agrees p stack (readFrom p.failure (.list before false :: stack) p.chars) (items fuel before p)

theorem finish_owe {top : Bool} {stack : List Reader.Frame} (h : finish stack = ending top) :
    finish (owe stack) = ending top := by
  rcases stack with _ | ⟨⟨before, _ | _⟩ | _ | _, stack⟩
  · exact h
  · cases top <;> cases h
  · exact h
  · exact h
  · exact h

theorem feed_close {top : Bool} {stack : List Reader.Frame} (h : finish stack = ending top) :
    feed stack .close = .bad .unexpectedClose := by
  rcases stack with _ | ⟨⟨before, _ | _⟩ | _ | _, stack⟩
  · rfl
  · cases top <;> cases h
  · rfl
  · rfl
  · rfl

/-- A datum, from calls on what is left behind its first token. The token comes from the stream, or it
    has been looked at. -/
theorem datum_of_token {fuel : Nat} {t : Token} (htoken : p.token = (.ok t, q))
    (hq : q.lookAhead = none) (hfollows : ∀ r, Leaves q r → Follows fuel r) (top : Bool)
    (stack : List Reader.Frame) (hend : finish (owe stack) = ending top)
    (hclose : t = .close → feed stack .close = .bad .unexpectedClose) :
    Agrees q stack (resume q.failure (feed stack t) q.chars) (datum (fuel + 1) top p) := by
  have hrefl : Leaves q q := .refl hq
  cases t with
  | num | str | sym | bool =>
    rw [datum, htoken]
    exact ⟨_, q, rfl, hrefl, rfl⟩
  | «open» =>
    rw [datum, htoken]
    exact (hfollows q hrefl).items [] stack
  | close =>
    rw [datum, htoken, hclose rfl]
    exact ⟨_, q, rfl, hrefl, rfl⟩
  | quote =>
    obtain ⟨answer, r, hcall, hr, hsame⟩ := (hfollows q hrefl).datum false (.quote :: stack) rfl
    rw [datum, htoken]
    dsimp only
    rw [hcall]
    refine ⟨_, r, rfl, hr, ?_⟩
    rw [feed, resume, hsame]
    cases answer <;> rfl
  | skip =>
    obtain ⟨answer, r, hcall, hr, hsame⟩ := (hfollows q hrefl).datum false (.skip :: stack) rfl
    rw [datum, htoken]
    dsimp only
    rw [hcall]
    cases answer with
    | error stop => exact ⟨.error stop, r, rfl, hr, hsame⟩
    | ok x =>
      -- the datum behind the comment stands in its place
      have hbehind := ((hfollows r hr).datum top (owe stack) hend).of_leaves hr
      obtain ⟨answer, r', hcall', hr', hread⟩ := hbehind
      refine ⟨answer, r', hcall', hr', ?_⟩
      rw [hr.failure, handOver_owe] at hread
      exact hsame.trans hread

/-- The calls on any parser agree, with less fuel that is still enough for its bytes. -/
def FollowsBelow (fuel : Nat) : Prop :=
  ∀ less < fuel, ∀ p : Parser, p.lookAhead = none → 2 * p.unread.length < less → Follows less p

theorem FollowsBelow.of_leaves {fuel less : Nat} (ih : FollowsBelow fuel) (hless : less < fuel)
    (hfuel : 2 * q.unread.length < less) : ∀ r, Leaves q r → Follows less r := by
  intro r hr
  have hle := hr.length_le
  exact ih less hless r hr.lookAhead (by omega)

theorem datum_agrees {fuel : Nat} (ih : FollowsBelow (fuel + 1)) (hp : p.lookAhead = none)
    (hfuel : 2 * p.unread.length < fuel + 1) {top : Bool} {stack : List Reader.Frame}
    (hend : finish stack = ending top) :
    Agrees p stack (readFrom p.failure stack p.chars) (datum (fuel + 1) top p) := by
  rcases hlex : lex p.failure p.chars with ⟨found, rest⟩
  obtain ⟨q, htoken, hq, rfl⟩ := exists_token hp hlex
  rw [readFrom_eq, hlex]
  rcases found with (_ | f) | t
  · rw [datum, htoken]
    exact ⟨_, q, rfl, hq, by rw [hend]; rfl⟩
  · rw [datum, htoken]
    exact ⟨_, q, rfl, hq, rfl⟩
  · have hlt : q.unread.length < p.unread.length := hq.length_lt (lex_token_length hlex)
    have hfollows := ih.of_leaves (q := q) (Nat.lt_succ_self fuel) (by omega)
    have hagrees := datum_of_token htoken hq.lookAhead hfollows top stack (finish_owe hend)
      fun _ => feed_close hend
    rw [hq.failure] at hagrees
    exact hagrees.of_leaves hq

theorem items_agrees {fuel : Nat} (ih : FollowsBelow (fuel + 1)) (hp : p.lookAhead = none)
    (hfuel : 2 * p.unread.length < fuel + 1) (before : List Expr) (stack : List Reader.Frame) :
    Agrees p stack (readFrom p.failure (.list before false :: stack) p.chars)
      (items (fuel + 1) before p) := by
  rcases hlex : lex p.failure p.chars with ⟨found, rest⟩
  obtain ⟨q, htoken, hq, rfl⟩ := exists_token hp hlex
  rw [readFrom_eq, hlex]
  rcases found with (_ | f) | t
  · rw [items, peek_of_stop htoken]
    exact ⟨_, q, rfl, hq, rfl⟩
  · rw [items, peek_of_stop htoken]
    exact ⟨_, q, rfl, hq, rfl⟩
  · have hlt : q.unread.length < p.unread.length := hq.length_lt (lex_token_length hlex)
    by_cases hclose : t = .close
    · subst hclose
      exact ⟨_, q, items_close hq.lookAhead htoken fuel before, hq, rfl⟩
    · -- the item is a call inside this one, and takes the token that has been looked at
      obtain ⟨less, rfl⟩ : ∃ less, fuel = less + 1 := ⟨fuel - 1, by omega⟩
      have hfollows := ih.of_leaves (q := q) (show less < less + 1 + 1 by omega) (by omega)
      obtain ⟨answer, r, hcall, hr, hsame⟩ := datum_of_token (token_keep hq.lookAhead t)
        hq.lookAhead hfollows false (.list before false :: stack) rfl fun h => absurd h hclose
      rw [hq.failure] at hsame
      rw [items_token htoken hclose, hcall]
      dsimp only
      rw [hsame]
      cases answer with
      | error stop => exact ⟨.error stop, r, rfl, hq.trans hr, rfl⟩
      | ok x =>
        have hothers := (ih.of_leaves (Nat.lt_succ_self _) (by omega) r hr).items (x :: before) stack
        rw [(hq.trans hr).failure] at hothers
        exact hothers.of_leaves (hq.trans hr)

/-- Where the fuel is enough, the calls of a parser agree with the automaton. -/
theorem follows {fuel : Nat} (hp : p.lookAhead = none) (hfuel : 2 * p.unread.length < fuel) :
    Follows fuel p := by
  induction fuel using Nat.strong_induction_on generalizing p with
  | _ fuel ih =>
    obtain ⟨less, rfl⟩ : ∃ less, fuel = less + 1 := ⟨fuel - 1, by omega⟩
    have hbelow : FollowsBelow (less + 1) := by
      intro m hm q hq hfuel
      exact ih m hm hq hfuel
    exact ⟨fun _ _ => datum_agrees hbelow hp hfuel, items_agrees hbelow hp hfuel⟩

/-- A call of `next` returns, keeps no token, and is a call of `next` on the source. -/
theorem next_spec (hp : p.lookAhead = none) :
    ∃ answer q, p.next = some (answer, q) ∧ Leaves p q ∧ p.source.next = (answer, q.source) := by
  obtain ⟨answer, q, hcall, hq, hsame⟩ := (follows hp (Nat.lt_succ_self _)).datum true [] rfl
  refine ⟨answer, q, hcall, hq, ?_⟩
  rw [handOver_nil] at hsame
  have hsource : q.source = ⟨q.chars, p.failure⟩ := by rw [source, hq.failure]
  rw [hsource]
  exact Source.next_of_readFrom hsame

end Parser

end FlatScheme
