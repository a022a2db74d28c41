import FlatScheme.Proofs.Reader.EndOfInput
import FlatScheme.Proofs.Reader.Grammar

/-!
Places between the tokens of a text.

A text `p ++ q` may be cut behind a token, or among the blanks and comments behind it, whatever `q`
begins with: in `"a"b` there is such a place behind the second quote mark. What has been read up to
there does not depend on what follows, provided that the text that takes the place of `q` does not
begin with a character that could be part of a word (`Local`). Without that proviso a number or a
name would grow, and a `#` could open a comment.
-/

namespace FlatScheme.Lexer

open Text (nul isBlank continuesName)

/-! ### What has been read does not depend on what follows -/

/-- Does a result that `f` finds in front of `q` stay the same when a boundary takes the place of
    `q`? -/
def Local {α : Type} (f : List Char → Except Stop α × List Char) : Prop :=
  ∀ (p q p' : List Char) (a : α), f (p ++ q) = (.ok a, p' ++ q) →
    ∀ after, Boundary after → f (p ++ after) = (.ok a, p' ++ after)

theorem local_ok {α : Type} (a : α) : Local fun cs => (.ok a, cs) := by
  intro p q p' b h after _
  obtain ⟨hb, hp⟩ := Prod.mk.inj h
  rw [hb, List.append_cancel_right hp]

theorem local_bad {α : Type} (e : SyntaxError) :
    Local fun cs => ((bad e : Except Stop α), cs) := by
  intro p q p' a h
  cases h

theorem scanString_ok_length {part : StringPart} {done cs rest : List Char} {t : Token}
    (h : scanString none part done cs = (.ok t, rest)) : rest.length < cs.length := by
  fun_induction scanString none part done cs <;> grind [bad, atEnd]

theorem scanString_local (part : StringPart) (done : List Char) :
    Local (scanString none part done) := by
  intro p q p' t h after hafter
  have hlonger : ∀ {part done}, scanString none part done q ≠ (.ok t, p' ++ q) := by
    intro part done hq
    have hlength := scanString_ok_length hq
    rw [List.length_append] at hlength
    omega
  fun_induction scanString none part done p with
  | case5 | case9 | case14 => exact absurd h hlonger
  | case12 code done c cs hc d hd hrange ih =>
    rw [List.cons_append, scanString, if_neg hc, hd] at h ⊢
    dsimp only at h ⊢
    rw [if_neg hrange] at h ⊢
    exact ih h
  | _ => simp_all [scanString, bad]

/-- A result that leaves `p' ++ q` has used up no part of `q`, and neither a NUL in front of it. -/
theorem scanWord_of_all {make : List Char → Except Stop Token} {c : Char} {p q p' : List Char}
    {t : Token} (hp : ∀ d ∈ p, continuesName d = true)
    (h : scanWord none make c (p ++ q) = (.ok t, p' ++ q)) : make (c :: p) = .ok t ∧ p' = [] := by
  have hlength : (q.takeWhile continuesName).length + (q.dropWhile continuesName).length =
      q.length := by
    rw [← List.length_append, List.takeWhile_append_dropWhile]
  unfold scanWord at h
  rw [List.takeWhile_append_of_pos hp, List.dropWhile_append_of_pos hp] at h
  have hrest : (p' ++ q).length ≤ (q.dropWhile continuesName).length := by
    split at h
    · next hdrop => rw [← (Prod.mk.inj h).2, hdrop]
    · next d rest hdrop =>
      rw [← (Prod.mk.inj h).2, hdrop]
      split <;> simp
  rw [List.length_append] at hrest
  have hword : q.takeWhile continuesName = [] := List.eq_nil_of_length_eq_zero (by omega)
  refine ⟨?_, List.eq_nil_of_length_eq_zero (by omega)⟩
  rw [hword, List.append_nil] at h
  split at h <;> exact (Prod.mk.inj h).1

theorem scanWord_of_end (make : List Char → Except Stop Token) (c : Char) {word : List Char}
    {d : Char} (hword : ∀ d ∈ word, continuesName d = true) (hd : continuesName d = false)
    (rest : List Char) : scanWord none make c (word ++ d :: rest) =
      (make (c :: word), if d = nul then rest else d :: rest) := by
  simp [scanWord, List.takeWhile_append_of_pos hword, List.dropWhile_append_of_pos hword, hd]

theorem scanWord_local (make : List Char → Except Stop Token) (c : Char) :
    Local (scanWord none make c) := by
  intro p q p' t h after hafter
  have hword : ∀ d ∈ p.takeWhile continuesName, continuesName d = true :=
    List.all_eq_true.mp List.all_takeWhile
  have hsplit : p.takeWhile continuesName ++ p.dropWhile continuesName = p :=
    List.takeWhile_append_dropWhile
  cases hdrop : p.dropWhile continuesName with
  | nil =>
    rw [hdrop, List.append_nil] at hsplit
    rw [hsplit] at hword
    obtain ⟨hmake, rfl⟩ := scanWord_of_all hword h
    rw [scanWord_of_boundary make c hword hafter, hmake]
    rfl
  | cons d r =>
    -- the word ends inside `p`
    have hd : continuesName d = false := by
      have hhead := List.head?_dropWhile_not continuesName p
      rw [hdrop] at hhead
      simpa using hhead
    have hscan := scanWord_of_end make c hword hd
    rw [hdrop] at hsplit
    rw [← hsplit, List.append_assoc, List.cons_append, hscan] at h ⊢
    obtain ⟨hmake, hrest⟩ := Prod.mk.inj h
    rw [hmake]
    split_ifs at hrest ⊢
    · rw [List.append_cancel_right hrest]
    · rw [← List.cons_append] at hrest ⊢
      rw [List.append_cancel_right hrest]

theorem scanBool_local (b : Bool) (letter : Char) : Local (scanBool b letter) := by
  intro p q p' t h after hafter
  cases p with
  | nil =>
    have hnil : t = .bool b ∧ p' = [] := by
      rw [List.nil_append] at h
      cases q with
      | nil => simpa [scanBool, eq_comm] using h
      | cons c q =>
        rw [scanBool] at h
        split_ifs at h
        · cases h
        · have hlength := congrArg (·.2.length) h
          simp at hlength
          omega
        · have hlength := congrArg (·.2.length) h
          simp_all
    obtain ⟨rfl, rfl⟩ := hnil
    exact scanBool_of_boundary b letter hafter
  | cons c p =>
    simp only [List.cons_append, scanBool] at h ⊢
    split_ifs at h ⊢ with hc hnul
    · cases h
    · exact local_ok _ _ _ _ _ h after hafter
    · exact local_ok _ (c :: p) _ _ _ h after hafter

theorem scanHash_ok_length {cs rest : List Char} {t : Token}
    (h : scanHash none cs = (.ok t, rest)) : rest.length < cs.length := by
  cases cs with
  | nil => cases h
  | cons c cs =>
    have hbool (b : Bool) (letter : Char) (hscan : scanBool b letter cs = (.ok t, rest)) :
        rest.length < (c :: cs).length := by
      have hlength := scanBool_length b letter cs
      rw [hscan] at hlength
      exact Nat.lt_succ_of_le hlength
    rw [scanHash] at h
    split_ifs at h
    · exact hbool true 't' h
    · exact hbool false 'f' h
    · cases h
      exact Nat.lt_succ_self _
    · cases h

theorem scanHash_local : Local (scanHash none) := by
  intro p q p' t h after hafter
  cases p with
  | nil =>
    have hlength := scanHash_ok_length h
    simp at hlength
  | cons c p =>
    simp only [List.cons_append, scanHash] at h ⊢
    split_ifs at h ⊢ with htrue hfalse hskip
    · exact scanBool_local true 't' p q p' t h after hafter
    · exact scanBool_local false 'f' p q p' t h after hafter
    · exact local_ok _ p q p' t h after hafter
    · cases h

theorem scan_local (c : Char) : Local (scan none c) := by
  unfold scan
  split_ifs
  · exact local_ok _
  · exact local_ok _
  · exact local_ok _
  · exact scanString_local _ _
  · exact scanHash_local
  · exact scanWord_local _ _
  · exact scanWord_local _ _
  · exact scanWord_local _ _
  · exact local_bad _

/-- The least number of characters up to the one that is sought. -/
def Region.cost : Region → Nat
  | .block _ => 3
  | _ => 1

theorem seek_cost {region : Region} {cs rest : List Char} {c : Char}
    (h : seek none region cs = (.ok c, rest)) : rest.length + region.cost ≤ cs.length := by
  fun_induction seek none region cs <;> grind [bad, atEnd, Region.cost]

/-- A character that begins no mark in front of `e` is passed over in a block comment, whatever
    follows. -/
theorem seek_block_pass {outer : Nat} {d e : Char} {cs : List Char} (hd : d ≠ nul)
    (hopen : ∀ r, d = '#' → e :: cs = '|' :: r → False)
    (hclose : ∀ r, outer = 0 → d = '|' → e :: cs = '#' :: r → False)
    (hunnest : ∀ n r, outer = n + 1 → d = '|' → e :: cs = '#' :: r → False)
    (hhashNul : ∀ r, d = '#' → e :: cs = '\x00' :: r → False)
    (hbarNul : ∀ r, d = '|' → e :: cs = '\x00' :: r → False) (rest : List Char) :
    seek none (.block outer) (d :: e :: rest) = seek none (.block outer) (e :: rest) := by
  refine seek_block_cons hd (fun hhash => ⟨?_, ?_⟩) (fun hbar => ⟨?_, ?_⟩)
  · rintro ⟨⟩
    exact hopen cs hhash rfl
  · rintro ⟨⟩
    exact hhashNul cs hhash rfl
  · rintro ⟨⟩
    cases outer with
    | zero => exact hclose cs rfl hbar rfl
    | succ outer => exact hunnest outer cs rfl hbar rfl
  · rintro ⟨⟩
    exact hbarNul cs hbar rfl

theorem seek_local (region : Region) : Local (seek none region) := by
  intro p q p' c h after hafter
  have hlonger : ∀ {region}, seek none region q ≠ (.ok c, p' ++ q) := by
    intro region hq
    have hlength := (seek_length none region q).2 c (congrArg Prod.fst hq)
    rw [hq, List.length_append] at hlength
    omega
  fun_induction seek none region p with
  | case1 | case2 | case6 | case7 | case8 | case9 | case10 | case11 =>
    next ih => exact ih h
  | case3 => cases h
  | case4 d cs hblock hcomment hd hblank ih =>
    rw [List.cons_append, seek_blank hblank] at h ⊢
    exact ih h
  | case5 d cs hblock hcomment hd hblank =>
    have hstarts : Starts d := ⟨hd, by simpa using hblank, hcomment⟩
    cases cs with
    | nil =>
      -- a `#` in front of `q` opens no comment, for the result lies in front of `q`
      have hq : d = '#' → ∀ rest, q ≠ '|' :: rest := by
        rintro rfl rest rfl
        have hcost : (p' ++ '|' :: rest).length + 3 ≤ rest.length := @seek_cost (.block 0) _ _ _ h
        rw [List.length_append, List.length_cons] at hcost
        omega
      have hbar : d = '#' → ∀ rest, after ≠ '|' :: rest := by
        rintro - rest rfl
        exact absurd hafter.1 (by decide)
      rw [List.singleton_append, seek_of_starts hstarts hq] at h
      rw [List.singleton_append, seek_of_starts hstarts hbar]
      exact local_ok d [] q p' c h after hafter
    | cons e cs =>
      have hmore (rest : List Char) : seek none .code (d :: e :: (cs ++ rest)) =
          (.ok d, e :: (cs ++ rest)) := by
        refine seek_of_starts hstarts fun hhash rest' heq => ?_
        obtain ⟨rfl, -⟩ := List.cons.inj heq
        exact hblock cs hhash rfl
      rw [List.cons_append, List.cons_append, hmore] at h ⊢
      exact local_ok d (e :: cs) q p' c h after hafter
  | case12 => cases h
  | case13 outer d cs hopen hclose hunnest hhashNul hbarNul hd ih =>
    cases cs with
    | nil =>
      have hcost := seek_cost h
      simp [Region.cost] at hcost
      omega
    | cons e cs =>
      have hpass := seek_block_pass hd hopen hclose hunnest hhashNul hbarNul
      rw [List.cons_append, List.cons_append, hpass] at h ⊢
      exact ih h
  | case14 | case15 | case16 => exact absurd h hlonger

theorem lex_local : Local (lex none) := by
  intro p q p' t h after hafter
  unfold lex at h ⊢
  split at h
  · next c mid hseek =>
    -- what is behind the first character ends with `q`, as what is behind the token does
    have hsuffix := (@scan_scans none c mid).suffix
    rw [h] at hsuffix
    obtain ⟨m, rfl⟩ := hsuffix
    rw [← List.append_assoc] at h hseek
    rw [seek_local .code p q (m ++ p') c hseek after hafter]
    exact scan_local c _ q p' t h after hafter
  · cases h

/-! ### Rows of tokens -/

/-- The text `cs` begins with the tokens `ts`, and `rest` is left behind them. -/
inductive Lexes : List Char → List Token → List Char → Prop
  | nil (cs : List Char) : Lexes cs [] cs
  | cons {cs mid rest : List Char} {t : Token} {ts : List Token}
      (first : lex none cs = (.ok t, mid)) (others : Lexes mid ts rest) : Lexes cs (t :: ts) rest

theorem Lexes.suffix {cs rest : List Char} {ts : List Token} (h : Lexes cs ts rest) :
    rest <:+ cs := by
  induction h with
  | nil cs => exact List.suffix_refl cs
  | @cons cs mid rest t ts first others ih =>
    have hmid : Consumes none cs (lex none cs) := lex_consumes cs
    rw [first] at hmid
    exact ih.trans hmid.suffix

theorem Lexes.tokens {cs rest : List Char} {ts : List Token} (h : Lexes cs ts rest) :
    tokens none cs = (ts ++ (tokens none rest).1, (tokens none rest).2) := by
  induction h with
  | nil cs => rfl
  | cons first others ih => rw [tokens_of_lex first, ih, List.cons_append]

/-- A row of tokens in front of `q` is read in front of any boundary. -/
theorem Lexes.local {p q g : List Char} {ts : List Token} (h : Lexes (p ++ q) ts (g ++ q))
    {after : List Char} (hafter : Boundary after) : Lexes (p ++ after) ts (g ++ after) := by
  generalize hcs : p ++ q = cs at h
  generalize hrest : g ++ q = rest at h
  induction h generalizing p with
  | nil cs =>
    obtain rfl := List.append_cancel_right (hcs.trans hrest.symm)
    exact .nil _
  | @cons cs mid rest t ts first others ih =>
    obtain ⟨m, hm⟩ := others.suffix
    have hmid : (m ++ g) ++ q = mid := by rw [List.append_assoc, hrest, hm]
    rw [← hcs, ← hmid] at first
    exact .cons (lex_local p q (m ++ g) t first after hafter) (ih hmid hrest)

theorem exists_lexes_tokens (cs : List Char) :
    ∃ rest left, Lexes cs (tokens none cs).1 rest ∧
      lex none rest = (.error (tokens none cs).2, left) := by
  fun_induction Lexer.tokens none cs with
  | case1 cs t mid hlex ih =>
    obtain ⟨rest, left, hrest, hstop⟩ := ih
    exact ⟨rest, left, .cons hlex hrest, hstop⟩
  | case2 cs stop left hlex => exact ⟨cs, left, .nil cs, hlex⟩

/-! ### Blanks and comments between tokens -/

/-- Is the text passed over, whatever follows? Such are blanks and finished comments. -/
def Gap (g : List Char) : Prop := ∀ after, seek none .code (g ++ after) = seek none .code after

theorem tokens_congr {cs cs' : List Char} (h : lex none cs = lex none cs') :
    tokens none cs = tokens none cs' := by
  rcases hlex : lex none cs with ⟨stop | t, rest⟩
  · rw [tokens_of_stop hlex, tokens_of_stop (h.symm.trans hlex)]
  · rw [tokens_of_lex hlex, tokens_of_lex (h.symm.trans hlex)]

theorem Gap.tokens {g : List Char} (h : Gap g) (cs : List Char) :
    tokens none (g ++ cs) = tokens none cs :=
  tokens_congr (by rw [lex, lex, h cs])

/-- What stands in front of the character that was sought is passed over. -/
theorem exists_seek_eq {region : Region} {cs rest : List Char} {c : Char}
    (h : seek none region cs = (.ok c, rest)) :
    ∃ g, cs = g ++ c :: rest ∧ ∀ after, seek none region (g ++ after) = seek none .code after := by
  fun_induction seek none region cs with
  | case1 | case7 | case8 | case9 | case10 | case11 =>
    next ih =>
    obtain ⟨g, rfl, hg⟩ := ih h
    exact ⟨_ :: _ :: g, rfl, hg⟩
  | case2 | case6 =>
    next ih =>
    obtain ⟨g, rfl, hg⟩ := ih h
    exact ⟨_ :: g, rfl, hg⟩
  | case4 d cs hblock hcomment hd hblank ih =>
    obtain ⟨g, rfl, hg⟩ := ih h
    exact ⟨d :: g, rfl, fun after => (seek_blank hblank _).trans (hg after)⟩
  | case5 d cs hblock hcomment hd hblank =>
    cases h
    exact ⟨[], rfl, fun _ => rfl⟩
  | case13 outer d cs hopen hclose hunnest hhashNul hbarNul hd ih =>
    have hcost := seek_cost h
    obtain ⟨g, rfl, hg⟩ := ih h
    cases g with
    | nil => simp [Region.cost] at hcost
    | cons e g =>
      have hpass := seek_block_pass hd hopen hclose hunnest hhashNul hbarNul
      exact ⟨d :: e :: g, rfl, fun after => (hpass _).trans (hg after)⟩
  | case3 | case12 | case14 | case15 | case16 => cases h

theorem exists_gap_of_seek {cs rest : List Char} {c : Char}
    (h : seek none .code cs = (.ok c, rest)) : ∃ g, cs = g ++ c :: rest ∧ Gap g :=
  exists_seek_eq h

/-- The end of a text is behind a gap, or in a line comment, which goes on up to the next newline. -/
theorem seek_finish_cases {region : Region} {cs : List Char} (hnul : nul ∉ cs)
    (h : (seek none region cs).1 = .error .finish) :
    (∀ after, seek none region (cs ++ after) = seek none .code after) ∨
      ∀ x, nul ∉ x → '\n' ∉ x → seek none region (cs ++ x) = (.error .finish, []) := by
  fun_induction seek none region cs with
  | case1 | case7 | case8 | case9 | case10 | case11 =>
    next ih => exact ih (by simp_all) h
  | case2 | case6 =>
    next ih => exact ih (by simp_all) h
  | case4 d cs hblock hcomment hd hblank ih =>
    rw [List.mem_cons, not_or] at hnul
    simp only [List.cons_append, seek_blank hblank]
    exact ih hnul.2 h
  | case13 outer d cs hopen hclose hunnest hhashNul hbarNul hd ih =>
    cases cs with
    | nil => cases h
    | cons e cs =>
      have hpass := seek_block_pass hd hopen hclose hunnest hhashNul hbarNul
      simp only [List.cons_append, hpass]
      exact ih (by simp_all) h
  | case15 => exact .inl fun _ => rfl
  | case16 =>
    refine .inr fun x => ?_
    induction x with
    | nil => exact fun _ _ => rfl
    | cons c x ih =>
      intro hx hline
      rw [List.mem_cons, not_or] at hx hline
      rw [List.nil_append, seek, if_neg (by simp [Ne.symm hline.1, Ne.symm hx.1])]
      exact ih hx.2 hline.2
  | case3 => exact absurd List.mem_cons_self hnul
  | case5 | case12 | case14 => cases h

/-! ### Places -/

/-- Is the place between `p` and `q` one between tokens of the text `p ++ q`, with nothing but blanks
    and finished comments back to the token before it? -/
def Between (p q : List Char) : Prop := ∃ ts g, Lexes (p ++ q) ts (g ++ q) ∧ Gap g

/-- The place in front of a token is one. -/
theorem between_of_seek {p q rest : List Char} {ts : List Token} {c : Char}
    (h : Lexes (p ++ c :: q) ts rest) (hseek : seek none .code rest = (.ok c, q)) :
    Between p (c :: q) := by
  obtain ⟨g, rfl, hg⟩ := exists_gap_of_seek hseek
  exact ⟨ts, g, h, hg⟩

/-- The tokens in front of such a place, and those behind it. -/
theorem Between.tokens {p q : List Char} (h : Between p q) :
    ∃ ts, Lexer.tokens none (p ++ q) = (ts ++ (Lexer.tokens none q).1, (Lexer.tokens none q).2) ∧
      ∀ after, Boundary after → Lexer.tokens none (p ++ after) =
        (ts ++ (Lexer.tokens none after).1, (Lexer.tokens none after).2) := by
  obtain ⟨ts, g, hlexes, hg⟩ := h
  refine ⟨ts, ?_, fun after hafter => ?_⟩
  · rw [hlexes.tokens, hg.tokens]
  · rw [(hlexes.local hafter).tokens, hg.tokens]

/-- The end of a text is such a place, or it is in a line comment. -/
theorem between_end_or_line {cs : List Char} (hnul : nul ∉ cs)
    (h : (tokens none cs).2 = .finish) :
    Between cs [] ∨ ∀ x, Boundary x → nul ∉ x → '\n' ∉ x →
      tokens none (cs ++ x) = tokens none cs := by
  obtain ⟨rest, left, hlexes, hstop⟩ := exists_lexes_tokens cs
  rw [h] at hstop
  have hseek := seek_of_lex_finish hstop
  have hrest : nul ∉ rest := fun hmem => hnul (hlexes.suffix.subset hmem)
  have hend : Lexes (cs ++ []) (tokens none cs).1 (rest ++ []) := by simpa using hlexes
  rcases seek_finish_cases hrest (congrArg Prod.fst hseek) with hgap | hline
  · exact .inl ⟨_, rest, hend, hgap⟩
  · refine .inr fun x hx hxnul hxline => ?_
    have hlex : lex none (rest ++ x) = (.error .finish, []) := by
      rw [lex, hline x hxnul hxline]
    rw [(hend.local hx).tokens, tokens_of_stop hlex, List.append_nil, ← h]

end FlatScheme.Lexer
