import FlatScheme.Proofs.Reader.DatumComment

/-!
Separators do not show in the tokens of a text.

A separator is a blank with any row of blanks and finished comments behind it. A line comment is
finished by its newline. A block comment is cut from left to right into marks and plain characters,
so that `#|#` is a mark and a character and not two marks; it is finished by the closing mark that
balances its first one. All this is passed over (`Filling.gap`), and a blank ends every word, so a
text with separators between its tokens has just these tokens and then ends (`Spaced.tokens_eq`).
-/

namespace FlatScheme.Lexer

open Text (nul isBlank beginsName continuesName nameRanges)

/-! ### Block comments -/

/-- What a block comment is cut into. -/
inductive Piece where
  | opens
  | closes
  | plain (c : Char)
  deriving DecidableEq

/-- Cut a text into pieces, from left to right; a character that is part of a mark is part of no
    other piece. -/
def pieces : List Char → List Piece
  | '#' :: '|' :: cs => .opens :: pieces cs
  | '|' :: '#' :: cs => .closes :: pieces cs
  | c :: cs => .plain c :: pieces cs
  | [] => []

theorem eq_nil_of_pieces {cs : List Char} (h : pieces cs = []) : cs = [] := by
  unfold pieces at h
  split at h
  · cases h
  · cases h
  · cases h
  · rfl

/-- From `outer` open marks on, no more are closed than have been opened, and in the end all are
    closed. -/
structure Nests (outer : Nat) (ps : List Piece) : Prop where
  never_below : ∀ p, p <+: ps → p.count .closes ≤ outer + p.count .opens
  all_closed : ps.count .closes = outer + ps.count .opens

instance (outer : Nat) (ps : List Piece) : Decidable (Nests outer ps) :=
  decidable_of_iff ((∀ p ∈ ps.inits, p.count .closes ≤ outer + p.count .opens) ∧
      ps.count .closes = outer + ps.count .opens)
    ⟨fun h => ⟨fun p hp => h.1 p ((List.mem_inits p ps).mpr hp), h.2⟩,
      fun h => ⟨fun p hp => h.never_below p ((List.mem_inits p ps).mp hp), h.all_closed⟩⟩

/-- A block comment without NULs: two marks, and between them pieces whose marks nest and balance. -/
def IsBlockComment (cs : List Char) : Prop :=
  nul ∉ cs ∧ ∃ inside, pieces cs = .opens :: (inside ++ [.closes]) ∧ Nests 0 inside

namespace Nests

variable {outer : Nat} {ps : List Piece}

theorem of_opens (h : Nests outer (.opens :: ps)) : Nests (outer + 1) ps where
  never_below p hp := by
    have hcount := h.never_below (.opens :: p) (List.cons_prefix_cons.mpr ⟨rfl, hp⟩)
    simp only [List.count_cons_self, List.count_cons_of_ne (show Piece.opens ≠ .closes by decide)]
      at hcount
    omega
  all_closed := by
    have hcount := h.all_closed
    simp only [List.count_cons_self, List.count_cons_of_ne (show Piece.opens ≠ .closes by decide)]
      at hcount
    omega

/-- A closing mark closes one that is open. -/
theorem of_closes (h : Nests outer (.closes :: ps)) : ∃ n, outer = n + 1 ∧ Nests n ps := by
  have hne : Piece.closes ≠ .opens := by decide
  have hopen : 1 ≤ outer := by
    have hcount := h.never_below [.closes] (List.cons_prefix_cons.mpr ⟨rfl, List.nil_prefix⟩)
    simpa using hcount
  obtain ⟨n, rfl⟩ := Nat.exists_eq_add_of_le' hopen
  refine ⟨n, rfl, fun p hp => ?_, ?_⟩
  · have hcount := h.never_below (.closes :: p) (List.cons_prefix_cons.mpr ⟨rfl, hp⟩)
    simp only [List.count_cons_self, List.count_cons_of_ne hne] at hcount
    omega
  · have hcount := h.all_closed
    simp only [List.count_cons_self, List.count_cons_of_ne hne] at hcount
    omega

theorem of_plain {c : Char} (h : Nests outer (.plain c :: ps)) : Nests outer ps where
  never_below p hp := by
    have hcount := h.never_below (.plain c :: p) (List.cons_prefix_cons.mpr ⟨rfl, hp⟩)
    simpa using hcount
  all_closed := by simpa using h.all_closed

theorem outer_eq_zero (h : Nests outer []) : outer = 0 := by
  have hcount := h.all_closed
  simpa using hcount.symm

end Nests

/-- The rest of a block comment, inside `outer + 1` marks, is passed over. -/
theorem seek_block_of_pieces {cs : List Char} {ps : List Piece} {outer : Nat} (hnul : nul ∉ cs)
    (hcs : pieces cs = ps ++ [.closes]) (hps : Nests outer ps) (after : List Char) :
    seek none (.block outer) (cs ++ after) = seek none .code after := by
  fun_induction pieces cs generalizing ps outer with
  | case1 cs ih =>
    cases ps with
    | nil => cases hcs
    | cons p ps =>
      obtain ⟨rfl, hrest⟩ := List.cons.inj hcs
      exact ih (by simp_all) hrest hps.of_opens
  | case2 cs ih =>
    cases ps with
    | nil =>
      -- the mark that closes the comment itself, with nothing behind it
      obtain rfl := hps.outer_eq_zero
      obtain rfl := eq_nil_of_pieces (List.cons.inj hcs).2
      rfl
    | cons p ps =>
      obtain ⟨rfl, hrest⟩ := List.cons.inj hcs
      obtain ⟨n, rfl, hn⟩ := hps.of_closes
      exact ih (by simp_all) hrest hn
  | case3 c cs hopens hcloses ih =>
    cases ps with
    | nil => cases hcs
    | cons p ps =>
      obtain ⟨rfl, hrest⟩ := List.cons.inj hcs
      -- a closing mark is still to come, so there is a character behind `c`
      obtain ⟨e, cs, rfl⟩ : ∃ e es, cs = e :: es := by
        cases cs with
        | nil => simp [pieces] at hrest
        | cons e es => exact ⟨e, es, rfl⟩
      have he : e ≠ nul := fun h => hnul (by simp [h])
      have hpass : seek none (.block outer) (c :: e :: (cs ++ after)) =
          seek none (.block outer) (e :: (cs ++ after)) := by
        refine seek_block_cons (fun h => hnul (by simp [h])) (fun hhash => ?_) (fun hbar => ?_)
        · refine ⟨fun hbar => hopens cs hhash ?_, by simpa using he⟩
          rw [Option.some.inj hbar]
        · refine ⟨fun hhash => hcloses cs hbar ?_, by simpa using he⟩
          rw [Option.some.inj hhash]
      rw [List.cons_append, List.cons_append, hpass]
      exact ih (by simp_all) hrest hps.of_plain
  | case4 => simp at hcs

theorem IsBlockComment.gap {cs : List Char} (h : IsBlockComment cs) : Gap cs := by
  obtain ⟨hnul, inside, hpieces, hinside⟩ := h
  intro after
  unfold pieces at hpieces
  split at hpieces
  · next rest =>
    exact seek_block_of_pieces (by simp_all) (List.cons.inj hpieces).2 hinside after
  · cases hpieces
  · cases hpieces
  · cases hpieces

/-! ### Separators -/

theorem seek_line {text : List Char} (hline : '\n' ∉ text) (hnul : nul ∉ text) (rest : List Char) :
    seek none .line (text ++ '\n' :: rest) = seek none .code rest := by
  induction text with
  | nil => rfl
  | cons c text ih =>
    rw [List.mem_cons, not_or] at hline hnul
    rw [List.cons_append, seek, if_neg (by simp [Ne.symm hline.1, Ne.symm hnul.1])]
    exact ih hline.2 hnul.2

/-- Blanks and finished comments in a row, without NULs. -/
inductive Filling : List Char → Prop
  | nil : Filling []
  | blank {c : Char} {cs : List Char} (h : isBlank c = true) (others : Filling cs) :
      Filling (c :: cs)
  | line {text cs : List Char} (hline : '\n' ∉ text) (hnul : nul ∉ text) (others : Filling cs) :
      Filling (';' :: (text ++ '\n' :: cs))
  | block {comment cs : List Char} (h : IsBlockComment comment) (others : Filling cs) :
      Filling (comment ++ cs)

theorem Filling.gap {cs : List Char} (h : Filling cs) : Gap cs := by
  intro after
  induction h with
  | nil => rfl
  | blank h _ ih => rw [List.cons_append, seek_blank h, ih]
  | @line text cs hline hnul _ ih =>
    rw [List.cons_append, List.append_assoc, List.cons_append, ← ih]
    exact seek_line hline hnul (cs ++ after)
  | block h _ ih => rw [List.append_assoc, h.gap, ih]

/-- What stands between two tokens: a blank, and blanks and finished comments behind it. -/
inductive Separator : List Char → Prop
  | mk {c : Char} {cs : List Char} (blank : isBlank c = true) (others : Filling cs) :
      Separator (c :: cs)

theorem Separator.gap {cs : List Char} (h : Separator cs) : Gap cs := by
  obtain ⟨hblank, hothers⟩ := h
  exact (Filling.blank hblank hothers).gap

/-- The code points of the blanks, in ranges. -/
def blankRanges : List (Nat × Nat) :=
  [(0x9, 0xd), (0x20, 0x20), (0x85, 0x85), (0xa0, 0xa0), (0x1680, 0x1680), (0x2000, 0x200a),
    (0x2028, 0x2029), (0x202f, 0x202f), (0x205f, 0x205f), (0x3000, 0x3000)]

theorem exists_range_of_isBlank {c : Char} (h : isBlank c = true) :
    ∃ b ∈ blankRanges, b.1 ≤ c.toNat ∧ c.toNat ≤ b.2 := by
  simp only [isBlank, Bool.or_eq_true, Bool.and_eq_true, decide_eq_true_eq, beq_iff_eq] at h
  simp only [blankRanges, List.mem_cons, List.not_mem_nil, exists_eq_or_imp, false_and, exists_false]
  omega

/-- No range of name characters meets a range of blanks. -/
theorem nameRanges_apart_blankRanges :
    ∀ r ∈ nameRanges, ∀ b ∈ blankRanges, r.2 < b.1 ∨ b.2 < r.1 := by
  -- as a computation on booleans, which is several times faster here than the one on propositions
  have hall : nameRanges.all (fun r => blankRanges.all fun b =>
      Nat.blt r.2 b.1 || Nat.blt b.2 r.1) = true := by decide +kernel
  simpa only [List.all_eq_true, Bool.or_eq_true, Nat.blt_eq] using hall

/-- A blank is part of no word. -/
theorem continuesName_of_isBlank {c : Char} (h : isBlank c = true) : continuesName c = false := by
  by_cases hascii : c.toNat < 128
  · have hall : ∀ n < 128, isBlank (Char.ofNat n) = true → continuesName (Char.ofNat n) = false := by
      decide +kernel
    have hcode := hall c.toNat hascii
    rw [Char.ofNat_toNat] at hcode
    exact hcode h
  · obtain ⟨b, hb, hfrom, hto⟩ := exists_range_of_isBlank h
    have hdigit : c.isDigit = false := by
      rw [Bool.eq_false_iff]
      intro hdigit
      have hnine : c.toNat ≤ 57 := (Char.isDigit_iff_toNat.mp hdigit).2
      omega
    have hbegins : beginsName c = false := by
      rw [beginsName, if_neg hascii, List.any_eq_false]
      intro r hr
      have hapart := nameRanges_apart_blankRanges r hr b hb
      simp only [Bool.and_eq_true, decide_eq_true_eq]
      omega
    rw [continuesName, hdigit, hbegins, Bool.or_false, Bool.and_false]

theorem Separator.boundary {cs : List Char} (h : Separator cs) (after : List Char) :
    Boundary (cs ++ after) := by
  obtain ⟨hblank, -⟩ := h
  refine ⟨continuesName_of_isBlank hblank, ?_⟩
  rintro rfl
  exact absurd hblank (by decide)

/-! ### Tokens with separators between them -/

/-- The text holds the tokens `ts`, each spelled in a way that is accepted when it stands alone, with
    separators between them. -/
inductive Spaced : List Token → List Char → Prop
  | nil : Spaced [] []
  | last {t : Token} {word : List Char} (accepted : lex none word = (.ok t, [])) : Spaced [t] word
  | cons {t u : Token} {ts : List Token} {word sep rest : List Char}
      (accepted : lex none word = (.ok t, [])) (separator : Separator sep)
      (others : Spaced (u :: ts) rest) : Spaced (t :: u :: ts) (word ++ (sep ++ rest))

/-- A spelling that is accepted when it stands alone is read as the same token in front of any
    boundary. -/
theorem lex_append_of_accepted {t : Token} {word : List Char} (h : lex none word = (.ok t, []))
    {after : List Char} (hafter : Boundary after) : lex none (word ++ after) = (.ok t, after) := by
  rw [← List.append_nil word] at h
  exact lex_local word [] [] t h after hafter

theorem Spaced.tokens_eq {ts : List Token} {text : List Char} (h : Spaced ts text) :
    tokens none text = (ts, .finish) := by
  have hend : tokens none [] = ([], .finish) := tokens_of_stop rfl
  induction h with
  | nil => exact hend
  | last accepted => rw [tokens_of_lex accepted, hend]
  | cons accepted separator _ ih =>
    rw [tokens_of_lex (lex_append_of_accepted accepted (separator.boundary _)),
      separator.gap.tokens, ih]

/-- Spacing and comments never change the tokens. A text of tokens with separators between them is
    read as these tokens and then ends, so texts that differ only in their separators are read as
    the same expressions, or refused with the same fault. -/
theorem separators_unseen {ts : List Token} {text text' : List Char} (h : Spaced ts text)
    (h' : Spaced ts text') :
    tokens none text = (ts, .finish) ∧
      Source.readAll ⟨text, none⟩ = Source.readAll ⟨text', none⟩ := by
  refine ⟨h.tokens_eq, ?_⟩
  rw [Source.readAll_eq_assemble, Source.readAll_eq_assemble, h.tokens_eq, h'.tokens_eq]

/-- The name `x#|` and a boolean, with a blank between them, and with the comments `#|#|||#|#` and
    `;|#` as well. -/
theorem nestedComment_unseen :
    Spaced [.sym "x#|", .bool true] ['x', '#', '|', ' ', '#', 't'] ∧
    Spaced [.sym "x#|", .bool true] ['x', '#', '|', ' ', '#', '|', '#', '|', '|', '|', '#', '|', '#',
      ';', '|', '#', '\n', '#', 't'] ∧
    tokens none ['x', '#', '|', ' ', '#', '|', '#', '|', '|', '|', '#', '|', '#',
      ';', '|', '#', '\n', '#', 't'] = ([.sym "x#|", .bool true], .finish) ∧
    Source.readAll ⟨['x', '#', '|', ' ', '#', '|', '#', '|', '|', '|', '#', '|', '#',
      ';', '|', '#', '\n', '#', 't'], none⟩ =
        Source.readAll ⟨['x', '#', '|', ' ', '#', 't'], none⟩ := by
  have hname : lex none ['x', '#', '|'] = (.ok (.sym "x#|"), []) := by decide +kernel
  have hbool : lex none ['#', 't'] = (.ok (.bool true), []) := by decide +kernel
  have hcomment : IsBlockComment ['#', '|', '#', '|', '|', '|', '#', '|', '#'] :=
    ⟨by decide, [.opens, .plain '|', .closes], by decide, by decide⟩
  have hline : Filling [';', '|', '#', '\n'] :=
    @Filling.line ['|', '#'] [] (by decide) (by decide) .nil
  have hplain : Separator [' '] := .mk (by decide) .nil
  have hfilled : Separator [' ', '#', '|', '#', '|', '|', '|', '#', '|', '#', ';', '|', '#', '\n'] :=
    .mk (by decide) (.block hcomment hline)
  have hshort := Spaced.cons hname hplain (.last hbool)
  have hlong := Spaced.cons hname hfilled (.last hbool)
  exact ⟨hshort, hlong, separators_unseen hlong hshort⟩

end FlatScheme.Lexer
