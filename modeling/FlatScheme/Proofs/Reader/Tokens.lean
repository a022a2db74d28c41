import FlatScheme.Proofs.Number.Literal
import FlatScheme.Token.Lexer
import FlatScheme.Value.Printer

/-!
Which texts spell which tokens.

A text spells a token if it is read as that token whatever follows, provided that what follows
begins with a *boundary*: nothing at all, or a character that can neither continue a word nor end
the input. The printer puts blanks and parentheses behind everything it writes, and both are
boundaries, so adjacent tokens never merge. `Spells` is established for names and for the
literals of numbers, strings and booleans, and conversely the lexer takes nothing but these for
names and numbers.
-/

namespace FlatScheme.Lexer

open Text (nul isBlank isDelimiter beginsName continuesName)

/-- Does a word end in front of this text, with nothing of the text consumed? -/
def Boundary : List Char → Prop
  | [] => True
  | c :: _ => continuesName c = false ∧ c ≠ nul

/-- Is `cs` read as the token `t` in front of every boundary? -/
def Spells (cs : List Char) (t : Token) : Prop :=
  ∀ after, Boundary after → lex none (cs ++ after) = (.ok t, after)

/-! ### Blanks and the first character -/

/-- A character that is neither a blank, nor the end of the input, nor the start of a line
    comment. -/
structure Starts (c : Char) : Prop where
  not_nul : c ≠ nul
  not_blank : isBlank c = false
  not_comment : c ≠ ';'

theorem seek_starts {failure : Option String} {region : Region} {cs rest : List Char} {c : Char}
    (h : seek failure region cs = (.ok c, rest)) : Starts c := by
  fun_induction seek failure region cs with
  | case5 c cs _ hcomment hnul hblank =>
    cases h
    exact ⟨hnul, by simpa using hblank, hcomment⟩
  | _ => simp_all [bad, atEnd_eq_ok]

theorem seek_of_starts {failure : Option String} {c : Char} {cs : List Char} (h : Starts c)
    (hblock : c = '#' → ∀ rest, cs ≠ '|' :: rest) : seek failure .code (c :: cs) = (.ok c, cs) := by
  rw [seek, if_neg h.not_nul, if_neg (by simp [h.not_blank])]
  · exact fun rest hc => hblock hc rest
  · exact h.not_comment

theorem lex_of_starts {failure : Option String} {c : Char} {cs : List Char} (h : Starts c)
    (hblock : c = '#' → ∀ rest, cs ≠ '|' :: rest) : lex failure (c :: cs) = scan failure c cs := by
  rw [lex, seek_of_starts h hblock]

theorem seek_blank {failure : Option String} {c : Char} (h : isBlank c = true) (cs : List Char) :
    seek failure .code (c :: cs) = seek failure .code cs := by
  rw [seek, if_neg, if_pos h]
  · rintro rfl
    exact absurd h (by decide)
  · rintro _ rfl
    exact absurd h (by decide)
  · rintro rfl
    exact absurd h (by decide)

theorem lex_blank {failure : Option String} {c : Char} (h : isBlank c = true) (cs : List Char) :
    lex failure (c :: cs) = lex failure cs := by
  rw [lex, lex, seek_blank h]

/-! ### Words -/

theorem scanWord_of_boundary (make : List Char → Except Stop Token) (c : Char)
    {cs after : List Char} (hcs : ∀ d ∈ cs, continuesName d = true) (h : Boundary after) :
    scanWord none make c (cs ++ after) = (make (c :: cs), after) := by
  unfold scanWord
  rw [List.takeWhile_append_of_pos hcs, List.dropWhile_append_of_pos hcs]
  cases after with
  | nil => simp [atEnd]
  | cons d after => simp [h.1, h.2]

theorem make_of_scanWord {failure : Option String} {make : List Char → Except Stop Token} {c : Char}
    {cs rest : List Char} {t : Token} (h : scanWord failure make c cs = (.ok t, rest)) :
    make (c :: cs.takeWhile continuesName) = .ok t := by
  unfold scanWord at h
  split at h
  · exact (atEnd_eq_ok.mp (Prod.mk.inj h).1).2
  · exact (Prod.mk.inj h).1

/-- If the scanner takes what begins with `c` for a word, then the words that begin with `c` spell
    what is made of them. -/
theorem spells_word {make : List Char → Except Stop Token} {c : Char} {cs : List Char} {t : Token}
    (hstarts : Starts c) (hhash : c ≠ '#')
    (hscan : ∀ rest, scan none c rest = scanWord none make c rest)
    (hcs : ∀ d ∈ cs, continuesName d = true) (hmake : make (c :: cs) = .ok t) :
    Spells (c :: cs) t := by
  intro after hafter
  rw [List.cons_append, lex_of_starts hstarts (fun h => absurd h hhash), hscan,
    scanWord_of_boundary make c hcs hafter, hmake]

/-! ### Names -/

/-- The words that are names: those that begin as names do, with a character that means nothing
    else, and those that begin with a sign or a point and are no numbers. -/
inductive IsName : List Char → Prop
  | plain {c : Char} {cs : List Char} (starts : Starts c)
    (ordinary : c ∉ ['(', ')', '\x27', '"', '#', '-', '+', '.']) (not_digit : c.isDigit = false)
    (begins : beginsName c = true) (continues : ∀ d ∈ cs, continuesName d = true) : IsName (c :: cs)
  | signed {c : Char} {cs : List Char} (sign : c = '-' ∨ c = '+' ∨ c = '.')
    (continues : ∀ d ∈ cs, continuesName d = true) (not_number : Number.read? (c :: cs) = none) :
    IsName (c :: cs)

theorem scan_of_sign {c : Char} (h : c = '-' ∨ c = '+' ∨ c = '.') (rest : List Char) :
    scan none c rest = scanWord none (asNumber asName) c rest := by
  rcases h with rfl | rfl | rfl <;> rfl

theorem starts_of_sign {c : Char} (h : c = '-' ∨ c = '+' ∨ c = '.') : Starts c ∧ c ≠ '#' := by
  rcases h with rfl | rfl | rfl <;> exact ⟨⟨by decide, by decide, by decide⟩, by decide⟩

theorem spells_name {word : List Char} (h : IsName word) :
    Spells word (.sym (String.ofList word)) := by
  cases h with
  | @plain c cs starts ordinary not_digit begins continues =>
    simp only [List.mem_cons, List.not_mem_nil, or_false, not_or] at ordinary
    obtain ⟨hopen, hclose, hquote, hstring, hhash, hminus, hplus, hpoint⟩ := ordinary
    have hscan (rest : List Char) : scan none c rest = scanWord none asName c rest := by
      simp [scan, *]
    exact spells_word starts hhash hscan continues rfl
  | signed sign continues not_number =>
    obtain ⟨hstarts, hhash⟩ := starts_of_sign sign
    refine spells_word hstarts hhash (scan_of_sign sign) continues ?_
    rw [asNumber, not_number]
    rfl

theorem isName_quote : IsName "quote".toList := by
  have hcontinues : ['u', 'o', 't', 'e'].all continuesName = true := by decide
  exact .plain (c := 'q') ⟨by decide, by decide, by decide⟩ (by decide) (by decide) (by decide)
    (List.all_eq_true.mp hcontinues)

/-! ### Numbers -/

theorem ne_of_isDigit {c d : Char} (h : c.isDigit = true) (hd : d.isDigit = false) : c ≠ d := by
  rintro rfl
  rw [h] at hd
  cases hd

theorem continuesName_of_isDigit {c : Char} (h : c.isDigit = true) : continuesName c = true := by
  have hdelimiter : isDelimiter c = false := by
    simp only [isDelimiter, Bool.or_eq_false_iff, beq_eq_false_iff_ne]
    refine ⟨⟨⟨⟨⟨?_, ?_⟩, ?_⟩, ?_⟩, ?_⟩, ?_⟩ <;> exact ne_of_isDigit h (by decide)
  simp [continuesName, hdelimiter, h]

theorem continuesName_of_isNumeral {c : Char} (h : Decimal.IsNumeral c) :
    continuesName c = true := by
  rcases h with h | h
  · exact continuesName_of_isDigit h
  · have hmarks : ['.', 'e', '+', '-'].all continuesName = true := by decide
    exact List.all_eq_true.mp hmarks c h

theorem starts_of_isDigit {c : Char} (h : c.isDigit = true) : Starts c := by
  have hrange : 48 ≤ c.toNat ∧ c.toNat ≤ 57 := by
    simpa [Char.isDigit, UInt32.le_iff_toNat_le] using h
  refine ⟨ne_of_isDigit h (by decide), ?_, ne_of_isDigit h (by decide)⟩
  simp [isBlank]
  omega

theorem scan_of_isDigit {c : Char} (h : c.isDigit = true) (rest : List Char) :
    scan none c rest = scanWord none (asNumber fun word => bad (.invalidNumber word)) c rest := by
  have hne (d : Char) (hd : d.isDigit = false) : c ≠ d := ne_of_isDigit h hd
  simp [scan, hne, h]

theorem spells_num {n : Number} (h : n.IsLiteral) : Spells n.text.toList (.num n) := by
  have hread := Number.read?_text h
  obtain ⟨c, cs, htext, hc, hcs⟩ := Number.text_shape h
  rw [htext] at hread ⊢
  have hmake (otherwise : List Char → Except Stop Token) :
      asNumber otherwise (c :: cs) = .ok (.num n) := by rw [asNumber, hread]
  have hcontinues : ∀ d ∈ cs, continuesName d = true :=
    fun d hd => continuesName_of_isNumeral (hcs d hd)
  rcases hc with hc | rfl
  · exact spells_word (starts_of_isDigit hc) (ne_of_isDigit hc (by decide)) (scan_of_isDigit hc)
      hcontinues (hmake _)
  · exact spells_word ⟨by decide, by decide, by decide⟩ (by decide) (fun _ => rfl) hcontinues
      (hmake _)

/-! ### Strings, booleans and punctuation -/

theorem scanString_escapeChar {c : Char} (h : c ≠ nul) (done rest : List Char) :
    scanString none .plain done (escapeChar c ++ rest) =
      scanString none .plain (c :: done) rest := by
  unfold escapeChar
  split
  · rfl
  · rfl
  · rfl
  · rfl
  · rfl
  · simp_all [scanString]

theorem scanString_flatMap_escapeChar {cs : List Char} (h : nul ∉ cs) (done rest : List Char) :
    scanString none .plain done (cs.flatMap escapeChar ++ rest) =
      scanString none .plain (cs.reverse ++ done) rest := by
  induction cs generalizing done with
  | nil => rfl
  | cons c cs ih =>
    have hc : c ≠ nul := fun heq => h (heq ▸ List.mem_cons_self)
    rw [List.flatMap_cons, List.append_assoc, scanString_escapeChar hc,
      ih (fun hmem => h (List.mem_cons_of_mem _ hmem)), List.reverse_cons, List.append_assoc]
    rfl

/-- A string literal spells its string, unless there is a NUL in it. -/
theorem spells_str {s : String} (h : nul ∉ s.toList) :
    Spells (stringLiteral s).toList (.str s) := by
  intro after _
  rw [stringLiteral, String.toList_ofList, List.cons_append, List.cons_append, List.append_assoc,
    lex_of_starts ⟨by decide, by decide, by decide⟩ (fun heq => absurd heq (by decide))]
  have hscan : ∀ rest, scan none '"' rest = scanString none .plain [] rest := fun _ => rfl
  rw [hscan, scanString_flatMap_escapeChar h, List.append_nil]
  simp [scanString, nul]

theorem scanBool_of_boundary (b : Bool) (letter : Char) {after : List Char} (h : Boundary after) :
    scanBool b letter after = (.ok (.bool b), after) := by
  cases after with
  | nil => rfl
  | cons c after => simp [scanBool, h.1, h.2]

theorem spells_bool (b : Bool) : Spells (boolLiteral b).toList (.bool b) := by
  intro after hafter
  have hlex : ∀ letter rest, letter ≠ '|' → lex none ('#' :: letter :: rest) =
      scanHash none (letter :: rest) := fun letter rest hletter =>
    lex_of_starts ⟨by decide, by decide, by decide⟩ (fun _ _ heq => hletter (List.cons.inj heq).1)
  cases b
  · exact (hlex 'f' after (by decide)).trans (scanBool_of_boundary false 'f' hafter)
  · exact (hlex 't' after (by decide)).trans (scanBool_of_boundary true 't' hafter)

theorem lex_open (rest : List Char) : lex none ('(' :: rest) = (.ok .open, rest) :=
  lex_of_starts ⟨by decide, by decide, by decide⟩ (fun heq => absurd heq (by decide))

theorem lex_close (rest : List Char) : lex none (')' :: rest) = (.ok .close, rest) :=
  lex_of_starts ⟨by decide, by decide, by decide⟩ (fun heq => absurd heq (by decide))

theorem lex_quote (rest : List Char) : lex none ('\x27' :: rest) = (.ok .quote, rest) :=
  lex_of_starts ⟨by decide, by decide, by decide⟩ (fun heq => absurd heq (by decide))

/-! ### What was read -/

/-- What holds of the tokens a text is read as: numbers have literals, and names are names. -/
def WellRead : Token → Prop
  | .num n => n.IsLiteral
  | .sym x => IsName x.toList
  | _ => True

theorem wellRead_of_scanString {failure : Option String} {part : StringPart}
    {done cs rest : List Char} {t : Token}
    (h : scanString failure part done cs = (.ok t, rest)) : WellRead t := by
  have hstr : ∃ s, t = .str s := by
    fun_induction scanString failure part done cs <;> simp_all [bad, atEnd_eq_ok]
    exact ⟨_, h.1.symm⟩
  obtain ⟨s, rfl⟩ := hstr
  trivial

theorem wellRead_of_scanBool {b : Bool} {letter : Char} {cs rest : List Char} {t : Token}
    (h : scanBool b letter cs = (.ok t, rest)) : WellRead t := by
  cases cs with
  | nil =>
    cases h
    trivial
  | cons c cs =>
    rw [scanBool] at h
    split at h <;> cases h
    trivial

theorem wellRead_of_scanHash {failure : Option String} {cs rest : List Char} {t : Token}
    (h : scanHash failure cs = (.ok t, rest)) : WellRead t := by
  cases cs with
  | nil => simp [scanHash, bad, atEnd_eq_ok] at h
  | cons c cs =>
    rw [scanHash] at h
    split_ifs at h
    · exact wellRead_of_scanBool h
    · exact wellRead_of_scanBool h
    · cases h
      trivial
    · cases h

theorem wellRead_of_asNumber {otherwise : List Char → Except Stop Token} {word : List Char}
    {t : Token} (h : asNumber otherwise word = .ok t)
    (hotherwise : Number.read? word = none → otherwise word = .ok t → WellRead t) : WellRead t := by
  unfold asNumber at h
  split at h
  · next n hn =>
    cases h
    exact Number.isLiteral_of_read? hn
  · next hnone => exact hotherwise hnone h

theorem wellRead_of_asName {word : List Char} {t : Token} (h : asName word = .ok t)
    (hname : IsName word) : WellRead t := by
  cases h
  rw [WellRead, String.toList_ofList]
  exact hname

theorem wellRead_of_scan {failure : Option String} {c : Char} {cs rest : List Char} {t : Token}
    (hstarts : Starts c) (h : scan failure c cs = (.ok t, rest)) : WellRead t := by
  have hcontinues : ∀ d ∈ cs.takeWhile continuesName, continuesName d = true :=
    List.all_eq_true.mp List.all_takeWhile
  unfold scan at h
  split_ifs at h with hopen hclose hquote hstring hhash hsign hdigit hbegins
  · cases h
    trivial
  · cases h
    trivial
  · cases h
    trivial
  · exact wellRead_of_scanString h
  · exact wellRead_of_scanHash h
  · refine wellRead_of_asNumber (make_of_scanWord h) fun hnone hname => ?_
    simp only [Bool.or_eq_true, decide_eq_true_eq, or_assoc] at hsign
    exact wellRead_of_asName hname (.signed hsign hcontinues hnone)
  · -- what begins with a digit is a number or an error
    refine wellRead_of_asNumber (make_of_scanWord h) fun _ hbad => ?_
    cases hbad
  · refine wellRead_of_asName (make_of_scanWord h) (.plain hstarts ?_ ?_ hbegins hcontinues)
    · simp_all
    · simpa using hdigit
  · cases h

theorem wellRead_of_lex {failure : Option String} {cs rest : List Char} {t : Token}
    (h : lex failure cs = (.ok t, rest)) : WellRead t := by
  unfold lex at h
  split at h
  · next c mid hseek => exact wellRead_of_scan (seek_starts hseek) h
  · cases h

end FlatScheme.Lexer
