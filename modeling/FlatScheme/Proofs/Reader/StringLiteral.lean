import FlatScheme.Proofs.Reader.EndOfInput
import FlatScheme.Proofs.Reader.Grammar
import FlatScheme.Proofs.Text.Utf8
import Mathlib.Data.List.Forall2

/-!
The literals of strings, and which of them survive being printed and read again.

Between its quotes a literal is a row of pieces, each of which spells one character: the character
itself, a letter behind a backslash, or a code point in hexadecimal digits. `Spelling` lists them, and
the scanner accepts these and nothing else. While it reads it may be inside a piece; `Leads` says what
of the piece has been read then.

The printer knows five of the escapes and leaves every other character as it is. That is no loss
except for one character: a bare NUL ends the input. It has no spelling but `\x0;`, with any number of
zeros, so a literal survives just when there is no such escape in it.
-/

namespace FlatScheme.Lexer

open Text (nul hexDigit?)

/-! ### Pieces -/

/-- The letters that stand for another character behind a backslash, and those characters. -/
def escapes : List (Char × Char) :=
  [('\\', '\\'), ('"', '"'), ('a', '\x07'), ('b', '\x08'), ('t', '\t'), ('n', '\n'), ('r', '\r')]

/-- The number that hexadecimal digits spell, behind digits of the value `code`. -/
def hexValue? : Nat → List Char → Option Nat
  | code, [] => some code
  | code, c :: cs => (hexDigit? c).bind fun d => hexValue? (code * 16 + d) cs

/-- The piece of a literal spells the character. -/
inductive Spelling : List Char → Char → Prop
  | raw {c : Char} (not_nul : c ≠ nul) (not_quote : c ≠ '"') (not_escape : c ≠ '\\') : Spelling [c] c
  | escape {letter c : Char} (h : (letter, c) ∈ escapes) : Spelling ['\\', letter] c
  | hex {digits : List Char} {code : Nat} (value : hexValue? 0 digits = some code)
      (range : code ≤ 0x10ffff) : Spelling ('\\' :: 'x' :: (digits ++ [';'])) (charOfCode code)

theorem escaped?_eq_some_iff {letter c : Char} :
    escaped? letter = some c ↔ (letter, c) ∈ escapes := by
  unfold escaped?
  split <;> simp_all [escapes, eq_comm]

theorem le_of_hexValue? {code value : Nat} {digits : List Char}
    (h : hexValue? code digits = some value) : code ≤ value := by
  induction digits generalizing code with
  | nil => exact Nat.le_of_eq (Option.some.inj h)
  | cons c digits ih =>
    obtain ⟨d, -, hvalue⟩ := Option.bind_eq_some_iff.mp h
    have := ih hvalue
    omega

theorem hexValue?_concat {code value d : Nat} {digits : List Char} {c : Char}
    (h : hexValue? code digits = some value) (hd : hexDigit? c = some d) :
    hexValue? code (digits ++ [c]) = some (value * 16 + d) := by
  induction digits generalizing code with
  | nil =>
    cases h
    simp [hexValue?, hd]
  | cons e digits ih =>
    obtain ⟨d', hd', hvalue⟩ := Option.bind_eq_some_iff.mp h
    simp [hexValue?, hd', ih hvalue]

/-! ### The scanner reads pieces -/

variable {failure : Option String}

theorem scanString_hex {code value : Nat} {digits : List Char} (done rest : List Char)
    (h : hexValue? code digits = some value) (hrange : value ≤ 0x10ffff) :
    scanString failure (.hex code) done (digits ++ ';' :: rest) =
      scanString failure .plain (charOfCode value :: done) rest := by
  induction digits generalizing code with
  | nil =>
    cases h
    simp [scanString]
  | cons c digits ih =>
    obtain ⟨d, hd, hvalue⟩ := Option.bind_eq_some_iff.mp h
    have hc : c ≠ ';' := by
      rintro rfl
      cases hd
    have hsmall : ¬0x10ffff < code * 16 + d := by
      have := le_of_hexValue? hvalue
      omega
    rw [List.cons_append, scanString, if_neg hc, hd]
    dsimp only
    rw [if_neg hsmall]
    exact ih hvalue

theorem scanString_spelling {piece : List Char} {c : Char} (h : Spelling piece c)
    (done rest : List Char) : scanString failure .plain done (piece ++ rest) =
      scanString failure .plain (c :: done) rest := by
  cases h with
  | raw not_nul not_quote not_escape => simp [scanString, *]
  | @escape letter c h =>
    have hx : letter ≠ 'x' := by
      rintro rfl
      simp [escapes] at h
    simp [scanString, nul, hx, escaped?_eq_some_iff.mpr h]
  | hex value range =>
    have hescape : ∀ cs, scanString failure .plain done ('\\' :: 'x' :: cs) =
        scanString failure (.hex 0) done cs := fun cs => by simp [scanString, nul]
    rw [List.cons_append, List.cons_append, List.append_assoc, hescape]
    exact scanString_hex done rest value range

theorem scanString_spellings {pieces : List (List Char)} {cs : List Char}
    (h : List.Forall₂ Spelling pieces cs) (done rest : List Char) :
    scanString failure .plain done (pieces.flatten ++ rest) =
      scanString failure .plain (cs.reverse ++ done) rest := by
  induction h generalizing done with
  | nil => rfl
  | cons hpiece _ ih =>
    rw [List.flatten_cons, List.append_assoc, scanString_spelling hpiece, ih, List.reverse_cons,
      List.append_assoc]
    rfl

/-- Up to a quote the text is a row of pieces, which spell the characters of the string behind those in
    `done`. -/
def Completes (done cs rest : List Char) (t : Token) : Prop :=
  ∃ pieces chars, cs = pieces.flatten ++ '"' :: rest ∧ List.Forall₂ Spelling pieces chars ∧
    t = .str (String.ofList (done.reverse ++ chars))

theorem Completes.cons {piece done cs rest : List Char} {c : Char} {t : Token} (hpiece : Spelling piece c)
    (h : Completes (c :: done) cs rest t) : Completes done (piece ++ cs) rest t := by
  obtain ⟨pieces, chars, hcs, hpieces, ht⟩ := h
  refine ⟨piece :: pieces, c :: chars, ?_, .cons hpiece hpieces, ?_⟩
  · rw [hcs, List.flatten_cons, List.append_assoc]
  · rw [ht, List.reverse_cons, List.append_assoc]
    rfl

/-- What of a piece has been read where the scanner is. -/
inductive Leads : StringPart → List Char → Prop
  | plain : Leads .plain []
  | escape : Leads .escape ['\\']
  | hex {digits : List Char} {code : Nat} (value : hexValue? 0 digits = some code)
      (range : code ≤ 0x10ffff) : Leads (.hex code) ('\\' :: 'x' :: digits)

theorem completes_of_scanString {part : StringPart} {done cs rest lead : List Char} {t : Token}
    (h : scanString failure part done cs = (.ok t, rest)) (hlead : Leads part lead) :
    Completes done (lead ++ cs) rest t := by
  fun_induction scanString failure part done cs generalizing lead with
  | case2 done cs =>
    cases hlead
    cases h
    exact ⟨[], [], rfl, .nil, by rw [List.append_nil]⟩
  | case3 done cs _ _ ih =>
    cases hlead
    exact ih h .escape
  | case4 done c cs hnul hquote hescape ih =>
    cases hlead
    have hpiece : Spelling [c] c := .raw hnul hquote hescape
    have hcompletes := (ih h .plain).cons hpiece
    exact hcompletes
  | case6 done cs ih =>
    cases hlead
    have hlead : Leads (.hex 0) ['\\', 'x'] := .hex rfl (Nat.zero_le _)
    exact ih h hlead
  | case7 done letter cs _ c hc ih =>
    cases hlead
    have hpiece : Spelling ['\\', letter] c := .escape (escaped?_eq_some_iff.mp hc)
    have hcompletes := (ih h .plain).cons hpiece
    exact hcompletes
  | case10 code done cs ih =>
    cases hlead with
    | @hex digits _ value range =>
      have hcompletes := (ih h .plain).cons (.hex value range)
      simpa using hcompletes
  | case12 code done c cs _ d hd hsmall ih =>
    cases hlead with
    | @hex digits _ value range =>
      have hcompletes := ih h (.hex (hexValue?_concat value hd) (Nat.le_of_not_lt hsmall))
      simpa using hcompletes
  | _ => simp_all [bad, atEnd_eq_ok]

theorem scanString_eq_ok_iff {cs rest : List Char} {t : Token} :
    scanString failure .plain [] cs = (.ok t, rest) ↔ Completes [] cs rest t := by
  refine ⟨fun h => completes_of_scanString h .plain, ?_⟩
  rintro ⟨pieces, chars, rfl, hpieces, rfl⟩
  rw [scanString_spellings hpieces]
  simp [scanString, nul]

theorem lex_quoted (cs : List Char) : lex failure ('"' :: cs) = scanString failure .plain [] cs :=
  lex_of_starts ⟨by decide, by decide, by decide⟩ (fun heq => absurd heq (by decide))

/-! ### The piece that spells NUL -/

/-- The escape of the code point zero, in so many digits. -/
def zeroEscape (zeros : Nat) : List Char := '\\' :: 'x' :: (List.replicate zeros '0' ++ [';'])

theorem hexDigit?_eq_zero_iff {c : Char} : hexDigit? c = some 0 ↔ c = '0' := by
  constructor
  · intro h
    unfold hexDigit? at h
    split at h
    · next hc =>
      simp only [Bool.and_eq_true, decide_eq_true_eq] at hc
      have hle : '0'.toNat ≤ c.toNat := hc.1
      have hzero := Option.some.inj h
      exact Char.toNat_inj.mp (by omega)
    split at h
    · simp at h
    split at h
    · simp at h
    · cases h
  · rintro rfl
    rfl

theorem hexValue?_eq_zero_iff {digits : List Char} :
    hexValue? 0 digits = some 0 ↔ ∃ zeros, digits = List.replicate zeros '0' := by
  induction digits with
  | nil => exact ⟨fun _ => ⟨0, rfl⟩, fun _ => rfl⟩
  | cons c digits ih =>
    constructor
    · intro h
      obtain ⟨d, hd, hvalue⟩ := Option.bind_eq_some_iff.mp h
      obtain rfl : d = 0 := by
        have := le_of_hexValue? hvalue
        omega
      obtain ⟨zeros, rfl⟩ := ih.mp hvalue
      exact ⟨zeros + 1, by rw [hexDigit?_eq_zero_iff.mp hd, List.replicate_succ]⟩
    · rintro ⟨zeros, h⟩
      cases zeros with
      | zero => cases h
      | succ zeros =>
        obtain ⟨rfl, rfl⟩ := List.cons.inj h
        exact ih.mpr ⟨zeros, rfl⟩

theorem charOfCode_eq_nul_iff {code : Nat} : charOfCode code = nul ↔ code = 0 := by
  unfold charOfCode
  split
  · next hvalid =>
    refine ⟨Text.toNat_eq_zero_of_ofNat hvalid, ?_⟩
    rintro rfl
    rfl
  · next hvalid =>
    refine ⟨fun h => absurd h (by decide), ?_⟩
    rintro rfl
    exact absurd (by decide) hvalid

theorem Spelling.eq_nul_iff {piece : List Char} {c : Char} (h : Spelling piece c) :
    c = nul ↔ ∃ zeros, piece = zeroEscape zeros := by
  cases h with
  | raw not_nul not_quote not_escape => simp [zeroEscape, not_nul]
  | @escape letter c h =>
    have hc : c ≠ nul := by
      rintro rfl
      simp [escapes, nul] at h
    simp [zeroEscape, hc]
  | @hex digits code value range =>
    have hpiece (zeros : Nat) : '\\' :: 'x' :: (digits ++ [';']) = zeroEscape zeros ↔
        digits = List.replicate zeros '0' := by simp [zeroEscape]
    rw [charOfCode_eq_nul_iff]
    simp only [hpiece]
    rw [← hexValue?_eq_zero_iff, value, Option.some.injEq]

theorem nul_mem_iff {pieces : List (List Char)} {cs : List Char} (h : List.Forall₂ Spelling pieces cs) :
    nul ∈ cs ↔ ∃ zeros, zeroEscape zeros ∈ pieces := by
  induction h with
  | nil => simp
  | cons hpiece _ ih =>
    rw [List.mem_cons, ih, eq_comm, hpiece.eq_nul_iff, ← exists_or]
    simp only [List.mem_cons, eq_comm]

/-! ### Literals written and read again -/

theorem scanString_flatMap_of_nul {cs : List Char} (h : nul ∈ cs) (done after : List Char) :
    ∃ rest, scanString none .plain done (cs.flatMap escapeChar ++ after) =
      (bad .unterminatedString, rest) := by
  -- The scanner stops at the first NUL, so what is in front of that is read as it stands.
  obtain ⟨before, behind, rfl, hbefore⟩ := List.eq_append_cons_of_mem h
  have hnul : escapeChar nul = [nul] := rfl
  refine ⟨behind.flatMap escapeChar ++ after, ?_⟩
  rw [List.flatMap_append, List.flatMap_cons, hnul, List.append_assoc,
    scanString_flatMap_escapeChar hbefore]
  simp [scanString]

/-- The tokens of what is written for a string. -/
theorem tokens_stringLiteral (s : String) :
    tokens none (stringLiteral s).toList =
      if nul ∈ s.toList then ([], .fault (.syntaxError .unterminatedString))
      else ([.str s], .finish) := by
  split
  · next hnul =>
    obtain ⟨rest, hscan⟩ := scanString_flatMap_of_nul hnul [] ['"']
    rw [stringLiteral, String.toList_ofList, List.cons_append]
    exact tokens_of_stop ((lex_quoted _).trans hscan)
  · next hnul =>
    have hlex := spells_str hnul [] trivial
    rw [List.append_nil] at hlex
    have hend : tokens none [] = ([], .finish) := tokens_of_stop rfl
    rw [tokens_of_lex hlex, hend]

/-- A quote begins a literal just if a row of pieces and another quote follow, and the token is the
    string that the pieces spell. The bytes written for this string are read as that one token unless a
    piece is an escape of the code point zero. -/
theorem literal_survives_without_zeroEscape (failure : Option String) (cs rest : List Char) (t : Token) :
    (lex failure ('"' :: cs) = (.ok t, rest) ↔
      ∃ pieces s, cs = pieces.flatten ++ '"' :: rest ∧
        List.Forall₂ Spelling pieces s.toList ∧ t = .str s) ∧
    ∀ pieces s, List.Forall₂ Spelling pieces s.toList →
      (tokens none (Text.decode (stringLiteral s).toUTF8.data.toList) = ([.str s], .finish) ↔
        ∀ zeros, zeroEscape zeros ∉ pieces) := by
  constructor
  · rw [lex_quoted, scanString_eq_ok_iff]
    constructor
    · rintro ⟨pieces, chars, hcs, hpieces, ht⟩
      exact ⟨pieces, String.ofList chars, hcs, by rwa [String.toList_ofList], ht⟩
    · rintro ⟨pieces, s, hcs, hpieces, rfl⟩
      exact ⟨pieces, s.toList, hcs, hpieces, by simp⟩
  · intro pieces s hpieces
    rw [Text.decode_toUTF8, tokens_stringLiteral, ← not_exists, ← nul_mem_iff hpieces]
    split <;> simp_all

/-- A letter behind a backslash, a character as it is, a surrogate and the last code point. -/
def samplePieces : List (List Char) :=
  [['\\', 'a'], ['é'], "\\xd800;".toList, "\\x10ffff;".toList]

/-- The replacement character stands for the surrogate. -/
def sampleString : String := "\x07é\ufffd" ++ String.singleton (Char.ofNat 0x10ffff)

theorem samplePieces_spell : List.Forall₂ Spelling samplePieces sampleString.toList := by
  have hletter : Spelling ['\\', 'a'] '\x07' := .escape (by decide)
  have hraw : Spelling ['é'] 'é' := .raw (by decide) (by decide) (by decide)
  have hsurrogate : Spelling ('\\' :: 'x' :: (['d', '8', '0', '0'] ++ [';'])) (charOfCode 0xd800) :=
    .hex rfl (by decide)
  have hlast : Spelling ('\\' :: 'x' :: (['1', '0', 'f', 'f', 'f', 'f'] ++ [';']))
      (charOfCode 0x10ffff) := .hex rfl (by decide)
  exact .cons hletter (.cons hraw (.cons hsurrogate (.cons hlast .nil)))

theorem sampleLiteral_survives :
    lex none ('"' :: (samplePieces.flatten ++ ['"'])) = (.ok (.str sampleString), []) ∧
    tokens none (Text.decode (stringLiteral sampleString).toUTF8.data.toList) =
      ([.str sampleString], .finish) := by
  obtain ⟨hlex, hwritten⟩ := literal_survives_without_zeroEscape none (samplePieces.flatten ++ ['"']) []
    (.str sampleString)
  refine ⟨hlex.mpr ⟨samplePieces, sampleString, rfl, samplePieces_spell, rfl⟩, ?_⟩
  refine (hwritten samplePieces sampleString samplePieces_spell).mpr fun zeros hmem => ?_
  exact absurd ((nul_mem_iff samplePieces_spell).mpr ⟨zeros, hmem⟩) (by decide)

/-- The literal `"\x0;"` is accepted, and what is written for it is not. -/
theorem zero_written_unterminated :
    lex none "\"\\x0;\"".toList = (.ok (.str "\x00"), []) ∧
    tokens none (Text.decode (stringLiteral "\x00").toUTF8.data.toList) =
      ([], .fault (.syntaxError .unterminatedString)) := by
  constructor
  · decide
  · rw [Text.decode_toUTF8, tokens_stringLiteral]
    decide

end FlatScheme.Lexer
