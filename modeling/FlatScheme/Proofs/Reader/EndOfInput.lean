import FlatScheme.Proofs.Reader.RoundTrip
import FlatScheme.Shell.Batch
import FlatScheme.Text.Utf8

/-!
Where the end of the input is found.

Reading ends successfully when the reader meets the end of the input between two expressions. Two
things pass for that end: the real one, where every character has been consumed and the stream has
not failed, and a NUL, behind which anything may be left. There is no third. So a text without NULs
is read as a whole: what is passed over at its end is blanks and comments (`Idle`). A NUL may cut a
text short.

Every function of the lexer and the reader `Consumes` the characters given to it, in this sense. The
rest is by induction over the calls made on one source.
-/

namespace FlatScheme

namespace Lexer

open Text (nul continuesName)

/-! ### Tokens -/

/-- Reading `cs` came to the result `r.1` and left `r.2`, which is an end of `cs`. If the result is
    the end of the input, then either nothing is left, or the last character consumed is a NUL. -/
structure Consumes {α : Type} (failure : Option String) (cs : List Char)
    (r : Except Stop α × List Char) : Prop where
  suffix : r.2 <:+ cs
  finish : r.1 = .error .finish → failure = none ∧ r.2 = [] ∨ nul :: r.2 <:+ cs

/-- The same of a result other than the end of the input. -/
structure Scans {α : Type} (cs : List Char) (r : Except Stop α × List Char) : Prop where
  suffix : r.2 <:+ cs
  ne_finish : r.1 ≠ .error .finish

variable {α : Type} {failure : Option String}

theorem Consumes.of_suffix {cs mid : List Char} {r : Except Stop α × List Char}
    (h : Consumes failure mid r) (hmid : mid <:+ cs) : Consumes failure cs r :=
  ⟨h.suffix.trans hmid, fun hend => (h.finish hend).imp id fun hnul => hnul.trans hmid⟩

theorem Scans.of_suffix {cs mid : List Char} {r : Except Stop α × List Char} (h : Scans mid r)
    (hmid : mid <:+ cs) : Scans cs r :=
  ⟨h.suffix.trans hmid, h.ne_finish⟩

theorem Scans.consumes {cs : List Char} {r : Except Stop α × List Char} (h : Scans cs r) :
    Consumes failure cs r :=
  ⟨h.suffix, fun hend => absurd hend h.ne_finish⟩

theorem ok_ne_finish (a : α) : (.ok a : Except Stop α) ≠ .error .finish := by simp

theorem fault_ne_finish (f : Fault) : (.error (.fault f) : Except Stop α) ≠ .error .finish := by
  simp

theorem atEnd_eq_finish {ending : Except Stop α} :
    atEnd failure ending = .error .finish ↔ failure = none ∧ ending = .error .finish := by
  cases failure <;> simp [atEnd]

theorem atEnd_ne_finish {ending : Except Stop α} (h : ending ≠ .error .finish) :
    atEnd failure ending ≠ .error .finish := fun hend => h (atEnd_eq_finish.mp hend).2

theorem seek_consumes (region : Region) (cs : List Char) :
    Consumes failure cs (seek failure region cs) := by
  fun_induction seek failure region cs with
  | case1 | case7 | case8 | case9 | case10 | case11 =>
    next ih => exact ih.of_suffix ((List.suffix_cons _ _).trans (List.suffix_cons _ _))
  | case2 | case4 | case6 | case13 =>
    next ih => exact ih.of_suffix (List.suffix_cons _ _)
  | case3 => exact ⟨List.suffix_cons _ _, fun _ => .inr (List.suffix_refl _)⟩
  | case5 => exact Scans.consumes ⟨List.suffix_cons _ _, ok_ne_finish _⟩
  | case12 => exact Scans.consumes ⟨List.suffix_cons _ _, fault_ne_finish _⟩
  | case14 => exact Scans.consumes ⟨List.nil_suffix, atEnd_ne_finish (fault_ne_finish _)⟩
  | case15 | case16 =>
    refine ⟨List.nil_suffix, ?_⟩
    intro hend
    exact .inl ⟨(atEnd_eq_finish.mp hend).1, rfl⟩

theorem scanString_scans (part : StringPart) (done cs : List Char) :
    Scans cs (scanString failure part done cs) := by
  constructor
  · fun_induction scanString failure part done cs <;> simp_all [List.suffix_cons_iff]
  · fun_induction scanString failure part done cs <;> simp_all [bad, atEnd_eq_finish]

theorem scanWord_scans {make : List Char → Except Stop Token}
    (hmake : ∀ word, make word ≠ .error .finish) (c : Char) (cs : List Char) :
    Scans cs (scanWord failure make c cs) := by
  have hdrop : cs.dropWhile continuesName <:+ cs := List.dropWhile_suffix _
  unfold scanWord
  split
  · exact ⟨List.nil_suffix, atEnd_ne_finish (hmake _)⟩
  · next d rest heq =>
    rw [heq] at hdrop
    refine ⟨?_, hmake _⟩
    dsimp only
    split
    · exact (List.suffix_cons d rest).trans hdrop
    · exact hdrop

theorem asNumber_ne_finish {otherwise : List Char → Except Stop Token}
    (h : ∀ word, otherwise word ≠ .error .finish) (word : List Char) :
    asNumber otherwise word ≠ .error .finish := by
  unfold asNumber
  split
  · exact ok_ne_finish _
  · exact h word

theorem scanBool_scans (b : Bool) (letter : Char) (cs : List Char) :
    Scans cs (scanBool b letter cs) := by
  fun_cases scanBool b letter cs with
  | case1 => exact ⟨List.nil_suffix, ok_ne_finish _⟩
  | case2 c cs hc => exact ⟨List.suffix_refl _, fault_ne_finish _⟩
  | case3 c cs hc =>
    refine ⟨?_, ok_ne_finish _⟩
    dsimp only
    split
    · exact List.suffix_cons c cs
    · exact List.suffix_refl _

theorem scanHash_scans (cs : List Char) : Scans cs (scanHash failure cs) := by
  fun_cases scanHash failure cs with
  | case1 => exact ⟨List.nil_suffix, atEnd_ne_finish (fault_ne_finish _)⟩
  | case2 cs => exact (scanBool_scans true 't' cs).of_suffix (List.suffix_cons _ _)
  | case3 cs => exact (scanBool_scans false 'f' cs).of_suffix (List.suffix_cons _ _)
  | case4 => exact ⟨List.suffix_cons _ _, ok_ne_finish _⟩
  | case5 => exact ⟨List.suffix_cons _ _, fault_ne_finish _⟩

theorem scan_scans (c : Char) (cs : List Char) : Scans cs (scan failure c cs) := by
  have hname : ∀ word, asName word ≠ .error .finish := fun _ => ok_ne_finish _
  have hnumber : ∀ word, (bad (.invalidNumber word) : Except Stop Token) ≠ .error .finish :=
    fun _ => fault_ne_finish _
  unfold scan
  split_ifs
  · exact ⟨List.suffix_refl _, ok_ne_finish _⟩
  · exact ⟨List.suffix_refl _, ok_ne_finish _⟩
  · exact ⟨List.suffix_refl _, ok_ne_finish _⟩
  · exact scanString_scans .plain [] cs
  · exact scanHash_scans cs
  · exact scanWord_scans (asNumber_ne_finish hname) c cs
  · exact scanWord_scans (asNumber_ne_finish hnumber) c cs
  · exact scanWord_scans hname c cs
  · exact ⟨List.suffix_refl _, fault_ne_finish _⟩

theorem lex_consumes (cs : List Char) : Consumes failure cs (lex failure cs) := by
  have hseek : Consumes failure cs (seek failure .code cs) := seek_consumes .code cs
  unfold lex
  split
  · next c rest heq =>
    rw [heq] at hseek
    exact (scan_scans c rest).consumes.of_suffix hseek.suffix
  · next stop rest heq =>
    rw [heq] at hseek
    refine ⟨hseek.suffix, ?_⟩
    rintro ⟨⟩
    exact hseek.finish rfl

/-- The lexer reports the end of the input where blanks and comments run into it. -/
theorem seek_of_lex_finish {cs rest : List Char} (h : lex failure cs = (.error .finish, rest)) :
    seek failure .code cs = (.error .finish, rest) := by
  unfold lex at h
  split at h
  · next c mid heq => exact absurd (congrArg Prod.fst h) (scan_scans c mid).ne_finish
  · next stop mid heq =>
    cases h
    exact heq

theorem scanString_ne_skip (part : StringPart) (done cs : List Char) :
    (scanString failure part done cs).1 ≠ .ok .skip := by
  fun_induction scanString failure part done cs <;> simp_all [bad, atEnd_eq_ok]

theorem asNumber_ne_skip {otherwise : List Char → Except Stop Token} {word : List Char}
    (h : otherwise word ≠ .ok .skip) : asNumber otherwise word ≠ .ok .skip := by
  unfold asNumber
  split
  · simp
  · exact h

theorem scanBool_ne_skip (b : Bool) (letter : Char) (cs : List Char) :
    (scanBool b letter cs).1 ≠ .ok .skip := by
  fun_cases scanBool b letter cs <;> simp [bad]

theorem eq_of_scanHash_skip {cs rest : List Char} (h : scanHash failure cs = (.ok .skip, rest)) :
    cs = ';' :: rest := by
  cases cs with
  | nil =>
    obtain ⟨hend, -⟩ := Prod.mk.inj h
    cases (atEnd_eq_ok.mp hend).2
  | cons c cs =>
    rw [scanHash] at h
    split_ifs at h with htrue hfalse hskip
    · exact absurd (congrArg Prod.fst h) (scanBool_ne_skip true 't' cs)
    · exact absurd (congrArg Prod.fst h) (scanBool_ne_skip false 'f' cs)
    · cases h
      rw [hskip]
    · cases h

theorem eq_of_scan_skip {c : Char} {cs rest : List Char}
    (h : scan failure c cs = (.ok .skip, rest)) : c = '#' ∧ cs = ';' :: rest := by
  unfold scan at h
  split_ifs at h with hopen hclose hquote hstring hhash hsign hdigit hbegins
  · cases h
  · cases h
  · cases h
  · exact absurd (congrArg Prod.fst h) (scanString_ne_skip _ _ _)
  · exact ⟨hhash, eq_of_scanHash_skip h⟩
  · exact absurd (make_of_scanWord h) (asNumber_ne_skip (by simp [asName]))
  · exact absurd (make_of_scanWord h) (asNumber_ne_skip (by simp [bad]))
  · cases make_of_scanWord h
  · cases h

/-- A datum comment is read from its mark. -/
theorem seek_of_lex_skip {cs rest : List Char} (h : lex failure cs = (.ok .skip, rest)) :
    seek failure .code cs = (.ok '#', ';' :: rest) := by
  unfold lex at h
  split at h
  · next c mid heq =>
    obtain ⟨rfl, rfl⟩ := eq_of_scan_skip h
    exact heq
  · cases h

end Lexer

namespace Reader

open Lexer (lex lex_consumes Consumes Scans ok_ne_finish fault_ne_finish)

/-! ### Expressions -/

theorem readFrom_consumes {failure : Option String} (stack : List Frame) (cs : List Char) :
    Consumes failure cs (readFrom failure stack cs) := by
  have hlex : Consumes failure cs (lex failure cs) := lex_consumes cs
  fun_induction readFrom failure stack cs with
  | case1 stack cs t rest heq =>
    rw [heq] at hlex
    exact Scans.consumes ⟨hlex.suffix, ok_ne_finish _⟩
  | case3 stack cs t rest heq | case5 stack cs f rest heq =>
    rw [heq] at hlex
    exact Scans.consumes ⟨hlex.suffix, fault_ne_finish _⟩
  | case2 stack cs t rest heq stack' hfeed ih =>
    rw [heq] at hlex
    exact (ih (lex_consumes rest)).of_suffix hlex.suffix
  | case4 stack cs rest heq =>
    rw [heq] at hlex
    exact ⟨hlex.suffix, fun _ => hlex.finish rfl⟩

/-- Something has been begun that will be an expression when it is finished: at the bottom of the
    stack there is a list or a quote mark. -/
def Committed : List Frame → Prop
  | [] => False
  | [frame] => frame ≠ .skip
  | _ :: stack => Committed stack

theorem committed_list (items : List Expr) (owed : Bool) : Committed [.list items owed] := by
  simp [Committed]

theorem committed_quote : Committed [.quote] := by simp [Committed]

theorem Committed.owe {stack : List Frame} (h : Committed stack) : Committed (owe stack) := by
  unfold Reader.owe
  split
  · next items owed stack =>
    cases stack with
    | nil => exact committed_list items true
    | cons => exact h
  · exact h

/-- A token does not undo what has been begun: either it leads to the expression, or to a fault, or
    there is still something at the bottom. -/
def Progress.Committed : Progress → Prop
  | .more stack => Reader.Committed stack
  | _ => True

theorem complete_committed {frame : Frame} {stack : List Frame} (h : Committed (frame :: stack))
    (x : Expr) : (complete (frame :: stack) x).Committed := by
  induction stack generalizing frame x with
  | nil =>
    cases frame with
    | list items owed => exact committed_list _ _
    | quote => trivial
    | skip => exact absurd rfl h
  | cons below stack ih =>
    cases frame with
    | list items owed => exact h
    | quote => exact ih h _
    | skip => exact Committed.owe h

theorem feed_committed {stack : List Frame} (h : Committed stack) (t : Token) :
    (feed stack t).Committed := by
  obtain ⟨frame, rest, rfl⟩ : ∃ frame rest, stack = frame :: rest := by
    cases stack with
    | nil => exact h.elim
    | cons frame rest => exact ⟨frame, rest, rfl⟩
  cases t with
  | «open» | quote | skip => exact h
  | num | str | sym | bool => exact complete_committed h _
  | close =>
    rcases frame with ⟨items, _ | _⟩ | _ | _
    · -- the list is complete and goes to what is below it
      cases rest with
      | nil => trivial
      | cons below rest =>
        have hbelow : Committed (below :: rest) := h
        exact complete_committed hbelow _
    · trivial
    · trivial
    · trivial

theorem readFrom_ne_finish {failure : Option String} {stack : List Frame} {cs : List Char}
    (h : Committed stack) : (readFrom failure stack cs).1 ≠ .error .finish := by
  fun_induction readFrom failure stack cs with
  | case1 => exact ok_ne_finish _
  | case3 | case5 => exact fault_ne_finish _
  | case2 stack cs t rest hlex stack' hfeed ih =>
    have hprogress := feed_committed h t
    rw [hfeed] at hprogress
    exact ih hprogress
  | case4 stack cs rest hlex =>
    rcases stack with _ | ⟨⟨items, _ | _⟩ | _ | _, stack⟩
    · exact h.elim
    all_goals exact fault_ne_finish _

/-- What a token leads to, when a datum comment waits for the expression. -/
def Progress.skipped : Progress → Progress
  | .done _ => .more []
  | .more stack => .more (stack ++ [.skip])
  | .bad e => .bad e

/-- A datum comment at the bottom of the stack changes nothing above it. -/
theorem owe_append_skip (stack : List Frame) : owe (stack ++ [.skip]) = owe stack ++ [.skip] := by
  rcases stack with _ | ⟨_ | _ | _, stack⟩ <;> rfl

theorem complete_append_skip (stack : List Frame) (x : Expr) :
    complete (stack ++ [.skip]) x = (complete stack x).skipped := by
  induction stack generalizing x with
  | nil => rfl
  | cons frame stack ih =>
    cases frame with
    | list items owed => rfl
    | quote => exact ih _
    | skip =>
      rw [List.cons_append, complete, owe_append_skip]
      rfl

theorem feed_append_skip (stack : List Frame) (t : Token) :
    feed (stack ++ [.skip]) t = (feed stack t).skipped := by
  cases t with
  | «open» | quote | skip => rfl
  | num | str | sym | bool => exact complete_append_skip stack _
  | close =>
    rcases stack with _ | ⟨⟨items, _ | _⟩ | _ | _, stack⟩
    · rfl
    · exact complete_append_skip stack _
    · rfl
    · rfl
    · rfl

/-- The end of the input is found behind a datum comment only if the expression in the comment is
    complete, and then behind that expression. -/
theorem finish_behind_skip {failure : Option String} {stack : List Frame} {cs rest : List Char}
    (h : readFrom failure (stack ++ [.skip]) cs = (.error .finish, rest)) :
    ∃ x mid, readFrom failure stack cs = (.ok x, mid) ∧
      readFrom failure [] mid = (.error .finish, rest) := by
  fun_induction readFrom failure stack cs with
  | case1 stack cs t mid hlex x hfeed =>
    rw [readFrom_of_lex hlex, feed_append_skip, hfeed] at h
    exact ⟨x, mid, rfl, h⟩
  | case2 stack cs t mid hlex stack' hfeed ih =>
    rw [readFrom_of_lex hlex, feed_append_skip, hfeed] at h
    exact ih h
  | case3 stack cs t mid hlex e hfeed =>
    rw [readFrom_of_lex hlex, feed_append_skip, hfeed] at h
    cases h
  | case4 stack cs mid hlex =>
    rw [readFrom_eq, hlex] at h
    rcases stack with _ | ⟨⟨items, _ | _⟩ | _ | _, stack⟩ <;> cases h
  | case5 stack cs f mid hlex =>
    rw [readFrom_eq, hlex] at h
    cases h

end Reader

/-! ### Bytes -/

namespace Text

theorem toNat_eq_zero_of_ofNat {n : Nat} (hn : n.isValidChar) (h : Char.ofNat n = nul) : n = 0 := by
  have hval : (Char.ofNat n).toNat = n := by
    rw [Char.ofNat, dif_pos hn]
    rfl
  rw [← hval, h]
  rfl

theorem scalar?_ne_nul {least n : Nat} {c : Char} (hleast : 0 < least)
    (h : scalar? least n = some c) : c ≠ nul := by
  unfold scalar? at h
  split at h
  · next hn =>
    cases h
    simp only [Bool.and_eq_true, decide_eq_true_eq] at hn
    intro hnul
    have hzero := toNat_eq_zero_of_ofNat hn.2 hnul
    omega
  · cases h

theorem pair?_ne_nul {b b₁ : UInt8} {c : Char} (h : pair? b b₁ = some c) : c ≠ nul := by
  unfold pair? at h
  split at h
  · obtain ⟨_, -, hc⟩ := Option.bind_eq_some_iff.mp h
    exact scalar?_ne_nul (by decide) hc
  · cases h

theorem triple?_ne_nul {b b₁ b₂ : UInt8} {c : Char} (h : triple? b b₁ b₂ = some c) : c ≠ nul := by
  unfold triple? at h
  split at h
  · obtain ⟨_, -, h⟩ := Option.bind_eq_some_iff.mp h
    obtain ⟨_, -, hc⟩ := Option.bind_eq_some_iff.mp h
    exact scalar?_ne_nul (by decide) hc
  · cases h

theorem quadruple?_ne_nul {b b₁ b₂ b₃ : UInt8} {c : Char} (h : quadruple? b b₁ b₂ b₃ = some c) :
    c ≠ nul := by
  unfold quadruple? at h
  split at h
  · obtain ⟨_, -, h⟩ := Option.bind_eq_some_iff.mp h
    obtain ⟨_, -, h⟩ := Option.bind_eq_some_iff.mp h
    obtain ⟨_, -, hc⟩ := Option.bind_eq_some_iff.mp h
    exact scalar?_ne_nul (by decide) hc
  · cases h

theorem sequence?_ne_nul {b : UInt8} {rest : List UInt8} {c : Char} {more : Nat}
    (h : sequence? b rest = some (c, more)) : c ≠ nul := by
  unfold sequence? at h
  split at h
  · simp only [Option.orElse_eq_orElse, Option.orElse_eq_or, Option.or_eq_some_iff,
      Option.map_eq_some_iff, Prod.mk.injEq] at h
    rcases h with ⟨_, h, rfl, -⟩ | ⟨-, ⟨_, h, rfl, -⟩ | ⟨-, _, h, rfl, -⟩⟩
    · exact pair?_ne_nul h
    · exact triple?_ne_nul h
    · exact quadruple?_ne_nul h
  · simp only [Option.orElse_eq_orElse, Option.orElse_eq_or, Option.or_eq_some_iff,
      Option.map_eq_some_iff, Prod.mk.injEq] at h
    rcases h with ⟨_, h, rfl, -⟩ | ⟨-, _, h, rfl, -⟩
    · exact pair?_ne_nul h
    · exact triple?_ne_nul h
  · simp only [Option.map_eq_some_iff, Prod.mk.injEq] at h
    obtain ⟨_, h, rfl, -⟩ := h
    exact pair?_ne_nul h
  · cases h

/-- One more character read. -/
theorem nul_mem_or_zero_mem_cons {c : Char} {b : UInt8} {read : List Char} {rest : List UInt8}
    (hc : c = nul → b = 0) (h : nul ∈ c :: read ∨ 0 ∈ rest) : nul ∈ read ∨ 0 ∈ b :: rest := by
  rcases h with h | h
  · rcases List.mem_cons.mp h with h | h
    · exact .inr (hc h.symm ▸ List.mem_cons_self)
    · exact .inl h
  · exact .inr (List.mem_cons_of_mem b h)

theorem zero_mem_of_nul_mem {skip : Nat} {read : List Char} {bytes : List UInt8}
    (h : nul ∈ decodeFrom skip read bytes) : nul ∈ read ∨ 0 ∈ bytes := by
  fun_induction decodeFrom skip read bytes with
  | case1 => exact .inl (List.mem_reverse.mp h)
  | case2 read skip b rest ih => exact (ih h).imp id (List.mem_cons_of_mem b)
  | case3 read b rest hb ih =>
    refine nul_mem_or_zero_mem_cons ?_ (ih h)
    intro hnul
    have hlt : b.toNat < 128 := hb
    exact UInt8.toNat.inj (toNat_eq_zero_of_ofNat (.inl (by omega)) hnul)
  | case4 read b rest hb c more hc ih =>
    exact nul_mem_or_zero_mem_cons (fun hnul => absurd hnul (sequence?_ne_nul hc)) (ih h)
  | case5 read b rest hb hnone ih =>
    exact nul_mem_or_zero_mem_cons (fun hnul => absurd hnul (by decide)) (ih h)

end Text

namespace Source

open Lexer (Region seek lex Consumes)
open Reader (readFrom readFrom_eq readFrom_of_lex)
open Text (nul isBlank)

/-! ### Texts without expressions -/

/-- A text without expressions, read from inside a region: blanks, line comments, block comments and
    datum comments, none of them left unfinished. -/
inductive Idle : Region → List Char → Prop
  | nil : Idle .code []
  | blank {c : Char} {cs : List Char} (hc : isBlank c = true) (h : Idle .code cs) :
      Idle .code (c :: cs)
  | semicolon {cs : List Char} (h : Idle .line cs) : Idle .code (';' :: cs)
  | lastLine : Idle .line []
  | newline {cs : List Char} (h : Idle .code cs) : Idle .line ('\n' :: cs)
  | inLine {c : Char} {cs : List Char} (hc : c ≠ '\n') (h : Idle .line cs) : Idle .line (c :: cs)
  | «open» {cs : List Char} (h : Idle (.block 0) cs) : Idle .code ('#' :: '|' :: cs)
  | nest {outer : Nat} {cs : List Char} (h : Idle (.block (outer + 1)) cs) :
      Idle (.block outer) ('#' :: '|' :: cs)
  | close {cs : List Char} (h : Idle .code cs) : Idle (.block 0) ('|' :: '#' :: cs)
  | unnest {outer : Nat} {cs : List Char} (h : Idle (.block outer) cs) :
      Idle (.block (outer + 1)) ('|' :: '#' :: cs)
  | inBlock {outer : Nat} {c : Char} {cs : List Char} (hopen : ∀ t, c :: cs ≠ '#' :: '|' :: t)
      (hclose : ∀ t, c :: cs ≠ '|' :: '#' :: t) (h : Idle (.block outer) cs) :
      Idle (.block outer) (c :: cs)
  | datum {cs rest : List Char} {x : Expr} (hx : next ⟨cs, none⟩ = (.ok x, ⟨rest, none⟩))
      (h : Idle .code rest) : Idle .code ('#' :: ';' :: cs)

/-- Nothing but blanks and comments was passed over, and what was found is the end of a text or the
    start of one without expressions. -/
def FoundIdle : Except Stop Char × List Char → Prop
  | (.ok c, rest) => Idle .code (c :: rest)
  | (.error .finish, _) => True
  | (.error (.fault _), _) => False

theorem idle_of_seek {region : Region} {cs : List Char} (hnul : nul ∉ cs)
    (h : FoundIdle (seek none region cs)) : Idle region cs := by
  have hone : ∀ {c : Char} {cs : List Char}, nul ∉ c :: cs → nul ∉ cs := fun h hmem =>
    h (List.mem_cons_of_mem _ hmem)
  fun_induction seek none region cs with
  | case1 cs ih => exact .open (ih (hone (hone hnul)) h)
  | case2 cs ih => exact .semicolon (ih (hone hnul) h)
  | case3 => exact absurd List.mem_cons_self hnul
  | case4 c cs _ _ _ hc ih => exact .blank hc (ih (hone hnul) h)
  | case5 => exact h
  | case6 c cs ih =>
    have hc : c ≠ nul := fun heq => hnul (heq ▸ List.mem_cons_self)
    have hrest := ih (hone hnul) h
    by_cases hline : c = '\n'
    · rw [if_pos (by simp [hline])] at hrest
      exact hline ▸ .newline hrest
    · rw [if_neg (by simp [hline, hc])] at hrest
      exact .inLine hline hrest
  | case7 outer cs ih => exact .nest (ih (hone (hone hnul)) h)
  | case8 cs ih => exact .close (ih (hone (hone hnul)) h)
  | case9 outer cs ih => exact .unnest (ih (hone (hone hnul)) h)
  | case10 | case11 => exact absurd List.mem_cons_self (hone hnul)
  | case12 => exact absurd List.mem_cons_self hnul
  | case13 outer c cs hopen hclose hunnest _ _ _ ih =>
    refine .inBlock ?_ ?_ (ih (hone hnul) h)
    · rintro t ⟨⟩
      exact hopen t rfl rfl
    · rintro t ⟨⟩
      cases outer with
      | zero => exact hclose t rfl rfl rfl
      | succ outer => exact hunnest outer t rfl rfl rfl
  | case14 => exact h.elim
  | case15 => exact .nil
  | case16 => exact .lastLine

/-- The end of the input is found in texts without expressions only. -/
theorem idle_of_readFrom {cs rest : List Char} (hnul : nul ∉ cs)
    (h : readFrom none [] cs = (.error .finish, rest)) : Idle .code cs := by
  induction hn : cs.length using Nat.strong_induction_on generalizing cs with
  | _ n ih =>
    refine idle_of_seek hnul ?_
    rcases hlex : lex none cs with ⟨(_ | f) | t, mid⟩
    · rw [Lexer.seek_of_lex_finish hlex]
      trivial
    · rw [readFrom_eq, hlex] at h
      cases h
    · rw [readFrom_of_lex hlex] at h
      cases t with
      | «open» =>
        exact absurd (congrArg Prod.fst h) (Reader.readFrom_ne_finish (Reader.committed_list _ _))
      | quote =>
        exact absurd (congrArg Prod.fst h) (Reader.readFrom_ne_finish Reader.committed_quote)
      | close | num | str | sym | bool => cases h
      | skip =>
        -- the expression in the comment is complete, and the rest of the text is shorter
        have hskip : readFrom none ([] ++ [.skip]) mid = (.error .finish, rest) := h
        obtain ⟨x, behind, hx, hbehind⟩ := Reader.finish_behind_skip hskip
        have hshorter : behind.length < n := by
          have hmid := Lexer.lex_token_length hlex
          have hlast := Reader.readFrom_length hx
          omega
        have hsuffix : behind <:+ cs := by
          have hmid : Consumes none cs (lex none cs) := Lexer.lex_consumes cs
          have hlast : Consumes none mid (readFrom none [] mid) := Reader.readFrom_consumes [] mid
          rw [hlex] at hmid
          rw [hx] at hlast
          exact hlast.suffix.trans hmid.suffix
        rw [Lexer.seek_of_lex_skip hlex]
        exact .datum (next_of_readFrom hx)
          (ih _ hshorter (fun hmem => hnul (hsuffix.subset hmem)) hbehind rfl)

/-! ### Calls on one source -/

theorem next_consumes (src : Source) :
    Consumes src.failure src.unread (src.next.1, src.next.2.unread) :=
  Reader.readFrom_consumes [] src.unread

/-- What is left to read after some calls of `next`, whatever they returned. -/
def after (src : Source) : Nat → Source
  | 0 => src
  | n + 1 => (src.after n).next.2

theorem after_succ {src rest : Source} {result : Except Stop Expr} (h : src.next = (result, rest))
    (n : Nat) : src.after (n + 1) = rest.after n := by
  induction n with
  | zero => rw [after, after, after, h]
  | succ n ih => rw [after, ih, after]

theorem after_suffix (src : Source) (n : Nat) : (src.after n).unread <:+ src.unread := by
  induction n with
  | zero => exact List.suffix_refl _
  | succ n ih => exact (next_consumes (src.after n)).suffix.trans ih

/-- Everything has been read: no character is left, and every further call finds the end. -/
def Exhausted (src : Source) : Prop :=
  src.unread = [] ∧ ∀ n, (src.after n).next.1 = .error .finish

theorem next_nil : next ⟨[], none⟩ = (.error .finish, ⟨[], none⟩) := by
  rw [next_of_readFrom (Reader.readFrom_eq none [] [])]
  rfl

theorem exhausted_nil : Exhausted ⟨[], none⟩ := by
  have hafter : ∀ n, after ⟨[], none⟩ n = ⟨[], none⟩ := by
    intro n
    induction n with
    | zero => rfl
    | succ n ih => rw [after, ih, next_nil]
  refine ⟨rfl, ?_⟩
  intro n
  rw [hafter, next_nil]

/-- A call that finds the end of the input has left nothing, or it has stopped at a NUL. -/
theorem exhausted_or_nul {src : Source} (h : src.next.1 = .error .finish) :
    src.failure = none ∧ src.next.2.Exhausted ∨ nul :: src.next.2.unread <:+ src.unread := by
  rcases (next_consumes src).finish h with ⟨hfailure, hunread⟩ | hnul
  · have hleft : src.next.2 = ⟨[], none⟩ := by
      rw [← hunread, ← hfailure]
      rfl
    exact .inl ⟨hfailure, hleft ▸ exhausted_nil⟩
  · exact .inr hnul

/-- What a call passes over when it finds the end of a text without NULs. -/
theorem idle_of_next {src : Source} (hfailure : src.failure = none) (hnul : nul ∉ src.unread)
    (h : src.next.1 = .error .finish) : Idle .code src.unread := by
  have hread : readFrom src.failure [] src.unread = (.error .finish, src.next.2.unread) :=
    Prod.ext h rfl
  rw [hfailure] at hread
  exact idle_of_readFrom hnul hread

/-! ### Whole inputs -/

/-- All expressions of an input are what the calls of `next` returned, and the call behind them found
    the end. -/
theorem next_of_readRest {src : Source} {done xs : List Expr} (h : src.readRest done = .ok xs) :
    ∃ ys, xs = done.reverse ++ ys ∧ (src.after ys.length).next.1 = .error .finish ∧
      ∀ i x, ys[i]? = some x → (src.after i).next.1 = .ok x := by
  fun_induction readRest src done with
  | case1 src done x rest hnext ih =>
    obtain ⟨ys, rfl, hend, hys⟩ := ih h
    refine ⟨x :: ys, by simp, ?_, ?_⟩
    · rw [List.length_cons, after_succ hnext]
      exact hend
    · rintro (_ | i) y hy
      · rw [after, hnext, ← Option.some.inj hy]
      · rw [after_succ hnext]
        exact hys i y hy
  | case2 src done rest hnext =>
    cases h
    exact ⟨[], (List.append_nil _).symm, by rw [List.length_nil, after, hnext], by simp⟩
  | case3 => cases h

/-- A run that is done has evaluated what the calls of `next` returned, up to the call that found the
    end. -/
theorem next_of_runBatch {ev : Evaluator} {fuel : Nat} {env : EnvId} {src : Source} {s s' : Store}
    (h : Shell.runBatch ev fuel env src s = (.done, s')) :
    ∃ n, (src.after n).next.1 = .error .finish ∧ ∀ i < n, ∃ x, (src.after i).next.1 = .ok x := by
  fun_induction Shell.runBatch ev fuel env src s with
  | case1 src s rest hnext => exact ⟨0, by rw [after, hnext], by simp⟩
  | case3 src s e rest hnext v s₁ heval ih =>
    obtain ⟨n, hend, hread⟩ := ih h
    refine ⟨n + 1, by rw [after_succ hnext, hend], ?_⟩
    rintro (_ | i) hi
    · exact ⟨e, by rw [after, hnext]⟩
    · rw [after_succ hnext]
      exact hread i (Nat.lt_of_succ_lt_succ hi)
  | case2 | case4 | case5 => cases h

/-- Input is read up to its end, unless a NUL cuts it short. Over any bytes and any sequence of calls
    of `next`, a call that returns the end of the input has left nothing, no later call will find
    anything, and, if there are no NULs, it has passed over nothing but blanks and comments; or
    else there is a NUL among the bytes and the call has stopped right behind it. All expressions
    of an input, and a run that is done, go up to such a call. -/
theorem finish_at_end_or_nul (bytes : List UInt8) (failure : Option String) :
    let src : Source := ⟨Text.decode bytes, failure⟩
    (∀ n, (src.after n).next.1 = .error .finish →
      (src.after (n + 1)).Exhausted ∧ (0 ∉ bytes → Idle .code (src.after n).unread) ∨
      0 ∈ bytes ∧ nul :: (src.after (n + 1)).unread <:+ (src.after n).unread) ∧
    (∀ xs, src.readAll = .ok xs → (src.after xs.length).next.1 = .error .finish ∧
      ∀ i x, xs[i]? = some x → (src.after i).next.1 = .ok x) ∧
    (∀ ev fuel env s s', Shell.runBatch ev fuel env src s = (.done, s') →
      ∃ n, (src.after n).next.1 = .error .finish ∧
        ∀ i < n, ∃ x, (src.after i).next.1 = .ok x) := by
  intro src
  have hzero : ∀ n, nul ∈ (src.after n).unread → 0 ∈ bytes := by
    intro n hmem
    have hdecoded : nul ∈ Text.decode bytes := (after_suffix src n).subset hmem
    exact (Text.zero_mem_of_nul_mem hdecoded).resolve_left List.not_mem_nil
  refine ⟨?_, ?_, ?_⟩
  · intro n hend
    rcases exhausted_or_nul hend with ⟨hfailure, hdone⟩ | hnul
    · refine .inl ⟨hdone, ?_⟩
      intro hbytes
      exact idle_of_next hfailure (fun hmem => hbytes (hzero n hmem)) hend
    · exact .inr ⟨hzero n (hnul.subset List.mem_cons_self), hnul⟩
  · intro xs hxs
    obtain ⟨ys, rfl, hend, hys⟩ := next_of_readRest hxs
    exact ⟨hend, hys⟩
  · intro ev fuel env s s' hrun
    exact next_of_runBatch hrun

theorem next_emptyList (rest : List Char) :
    next ⟨'(' :: ')' :: rest, none⟩ = (.ok (.list []), ⟨rest, none⟩) := by
  refine next_of_readFrom ?_
  rw [Reader.readFrom_of_lex (Lexer.lex_open _), Reader.feed, Reader.resume,
    Reader.readFrom_of_lex (Lexer.lex_close _)]
  rfl

theorem next_of_lex_finish {cs rest : List Char} (h : lex none cs = (.error .finish, rest)) :
    next ⟨cs, none⟩ = (.error .finish, ⟨rest, none⟩) := by
  refine next_of_readFrom ?_
  rw [Reader.readFrom_eq, h]
  rfl

/-- The bytes of `() ;()`: a list, and another one in a comment. -/
def commented : List UInt8 := [0x28, 0x29, 0x20, 0x3b, 0x28, 0x29]

/-- All of the commented input is read as one list, then nothing is left, and what was passed over
    is a comment. -/
theorem commented_exhausted : 0 ∉ commented ∧
    readAll ⟨Text.decode commented, none⟩ = .ok [.list []] ∧
    (after ⟨Text.decode commented, none⟩ 2).Exhausted ∧
    Idle .code (after ⟨Text.decode commented, none⟩ 1).unread := by
  have hdecode : Text.decode commented = ['(', ')', ' ', ';', '(', ')'] := by decide
  have hread : readAll ⟨Text.decode commented, none⟩ = .ok [.list []] := by
    have hcomment : next ⟨[' ', ';', '(', ')'], none⟩ = (.error .finish, ⟨[], none⟩) :=
      next_of_lex_finish (by decide)
    rw [hdecode, readAll, readRest_eq, next_emptyList]
    dsimp only
    rw [readRest_eq, hcomment]
    rfl
  have hnul : 0 ∉ commented := by decide
  obtain ⟨hfinish, hall, -⟩ := finish_at_end_or_nul commented none
  have hend := (hall _ hread).1
  obtain ⟨hdone, hidle⟩ := (hfinish 1 hend).resolve_right fun h => hnul h.1
  exact ⟨hnul, hread, hdone, hidle hnul⟩

/-- The bytes of `() ()` with a NUL in front of the second list. -/
def cutLists : List UInt8 := [0x28, 0x29, 0x20, 0x00, 0x28, 0x29]

/-- The second list is dropped without an error. Reading all expressions succeeds with the first one
    alone, while a call after the one that returned the end of the input still finds the other. -/
theorem cutLists_dropped :
    readAll ⟨Text.decode cutLists, none⟩ = .ok [.list []] ∧
    (after ⟨Text.decode cutLists, none⟩ 1).next.1 = .error .finish ∧
    (after ⟨Text.decode cutLists, none⟩ 2).unread = ['(', ')'] ∧
    (after ⟨Text.decode cutLists, none⟩ 2).next.1 = .ok (.list []) := by
  have hdecode : Text.decode cutLists = ['(', ')', ' ', nul, '(', ')'] := by decide
  have hcut : next ⟨[' ', nul, '(', ')'], none⟩ = (.error .finish, ⟨['(', ')'], none⟩) :=
    next_of_lex_finish (by decide)
  have hfirst : after ⟨Text.decode cutLists, none⟩ 1 = ⟨[' ', nul, '(', ')'], none⟩ := by
    rw [after, after, hdecode, next_emptyList]
  have hsecond : after ⟨Text.decode cutLists, none⟩ 2 = ⟨['(', ')'], none⟩ := by
    rw [after, hfirst, hcut]
  refine ⟨?_, ?_, ?_, ?_⟩
  · rw [hdecode, readAll, readRest_eq, next_emptyList]
    dsimp only
    rw [readRest_eq, hcut]
    rfl
  · rw [hfirst, hcut]
  · rw [hsecond]
  · rw [hsecond, next_emptyList]

end Source

end FlatScheme
