import FlatScheme.Text.Utf8

/-!
Decoding undoes encoding: the bytes of a string are read as its characters.

Encoding cuts the code point of a character into digits of base 64. The last ones go into continuation
bytes, and the mark on the leading byte tells how many these are. A lemma for each length puts the
digits together again, and as the marks differ, the decoder does not take one length for another.

Any bytes at all are decoded character by character: behind the first characters the others are those
of the bytes that are left (`decode_dropChars`).
-/

namespace FlatScheme.Text

variable {c : Char} {b b₁ b₂ b₃ : UInt8} {d d₁ d₂ d₃ : Nat}

/-! ### Sequences -/

theorem continuation?_of_toNat (hb : b.toNat = d + 0x80) (hd : d < 64) : continuation? b = some d := by
  simp [continuation?, UInt8.le_iff_toNat_le, UInt8.lt_iff_toNat_lt, hb, hd]

theorem scalar?_toNat {least : Nat} (h : least ≤ c.toNat) : scalar? least c.toNat = some c := by
  have hvalid : c.toNat.isValidChar := c.valid
  simp [scalar?, h, hvalid]

theorem pair?_of_toNat (hb : b.toNat = d + 0xc0) (hd : d < 32) (h₁ : continuation? b₁ = some d₁)
    (hc : c.toNat = d * 64 + d₁) (hleast : 0x80 ≤ c.toNat) : pair? b b₁ = some c := by
  simp [pair?, UInt8.le_iff_toNat_le, UInt8.lt_iff_toNat_lt, hb, hd, h₁, ← hc, scalar?_toNat hleast]

theorem triple?_of_toNat (hb : b.toNat = d + 0xe0) (hd : d < 16) (h₁ : continuation? b₁ = some d₁)
    (h₂ : continuation? b₂ = some d₂) (hc : c.toNat = (d * 64 + d₁) * 64 + d₂)
    (hleast : 0x800 ≤ c.toNat) : triple? b b₁ b₂ = some c := by
  simp [triple?, UInt8.le_iff_toNat_le, UInt8.lt_iff_toNat_lt, hb, hd, h₁, h₂, ← hc,
    scalar?_toNat hleast]

theorem quadruple?_of_toNat (hb : b.toNat = d + 0xf0) (hd : d < 8) (h₁ : continuation? b₁ = some d₁)
    (h₂ : continuation? b₂ = some d₂) (h₃ : continuation? b₃ = some d₃)
    (hc : c.toNat = ((d * 64 + d₁) * 64 + d₂) * 64 + d₃) (hleast : 0x10000 ≤ c.toNat) :
    quadruple? b b₁ b₂ b₃ = some c := by
  simp [quadruple?, UInt8.le_iff_toNat_le, UInt8.lt_iff_toNat_lt, hb, hd, h₁, h₂, h₃, ← hc,
    scalar?_toNat hleast]

theorem pair?_of_le (h : 0xe0 ≤ b.toNat) : pair? b b₁ = none := by
  simp [pair?, UInt8.lt_iff_toNat_lt, Nat.not_lt.mpr h]

theorem triple?_of_le (h : 0xf0 ≤ b.toNat) : triple? b b₁ b₂ = none := by
  simp [triple?, UInt8.lt_iff_toNat_lt, Nat.not_lt.mpr h]

theorem sequence?_pair (h : pair? b b₁ = some c) (rest : List UInt8) :
    sequence? b (b₁ :: rest) = some (c, 1) := by
  match rest with
  | [] => simp [sequence?, h]
  | [_] => simp [sequence?, h]
  | _ :: _ :: _ => simp [sequence?, h]

theorem sequence?_triple (hb : 0xe0 ≤ b.toNat) (h : triple? b b₁ b₂ = some c) (rest : List UInt8) :
    sequence? b (b₁ :: b₂ :: rest) = some (c, 2) := by
  match rest with
  | [] => simp [sequence?, pair?_of_le hb, h]
  | _ :: _ => simp [sequence?, pair?_of_le hb, h]

theorem sequence?_quadruple (hb : 0xf0 ≤ b.toNat) (h : quadruple? b b₁ b₂ b₃ = some c)
    (rest : List UInt8) : sequence? b (b₁ :: b₂ :: b₃ :: rest) = some (c, 3) := by
  simp [sequence?, pair?_of_le (show 0xe0 ≤ b.toNat by omega), triple?_of_le hb, h]

theorem decodeFrom_sequence {more : Nat} {bytes : List UInt8} (hb : 0x80 ≤ b.toNat)
    (h : sequence? b bytes = some (c, more)) (read : List Char) :
    decodeFrom 0 read (b :: bytes) = decodeFrom more (c :: read) bytes := by
  have hlong : ¬b < 0x80 := by
    rw [UInt8.lt_iff_toNat_lt]
    exact Nat.not_lt.mpr hb
  rw [decodeFrom, if_neg hlong, h]

/-! ### Characters and strings -/

theorem decodeFrom_short {n : Nat} (h : n ≤ 0x7f) (read : List Char) (rest : List UInt8) :
    decodeFrom 0 read (UInt8.ofNat n :: rest) = decodeFrom 0 (Char.ofNat n :: read) rest := by
  have hval : (UInt8.ofNat n).toNat = n := UInt8.toNat_ofNat_of_lt' (Nat.lt_of_le_of_lt h (by decide))
  have hshort : UInt8.ofNat n < 0x80 := by
    rw [UInt8.lt_iff_toNat_lt, hval]
    exact Nat.lt_succ_of_le h
  rw [decodeFrom, if_pos hshort, hval]

theorem toNat_ofNat_add {mark : Nat} (h : d + mark < 256) :
    (UInt8.ofNat (d + mark)).toNat = d + mark := by
  rw [UInt8.toNat_ofNat']
  exact Nat.mod_eq_of_lt h

theorem continuation?_ofNat (h : d < 64) : continuation? (UInt8.ofNat (d + 0x80)) = some d :=
  continuation?_of_toNat (toNat_ofNat_add (by omega)) h

theorem toNat_lt (c : Char) : c.toNat < 0x110000 := by
  have hvalid := c.valid
  simp only [UInt32.isValidChar, Nat.isValidChar, Char.toNat_val] at hvalid
  omega

theorem decodeFrom_utf8EncodeChar (c : Char) (read : List Char) (rest : List UInt8) :
    decodeFrom 0 read (String.utf8EncodeChar c ++ rest) = decodeFrom 0 (c :: read) rest := by
  have hrange := toNat_lt c
  have hdigit (n : Nat) := continuation?_ofNat (Nat.mod_lt n (show 64 > 0 by decide))
  simp only [String.utf8EncodeChar, Char.toNat_val]
  split
  · next hone => rw [List.singleton_append, decodeFrom_short hone, Char.ofNat_toNat]
  split
  · have hb := toNat_ofNat_add (show c.toNat / 64 % 32 + 0xc0 < 256 by omega)
    have hseq := pair?_of_toNat hb (by omega) (hdigit c.toNat) (show c.toNat = _ by omega) (by omega)
    exact decodeFrom_sequence (by omega) (sequence?_pair hseq rest) read
  split
  · have hb := toNat_ofNat_add (show c.toNat / 4096 % 16 + 0xe0 < 256 by omega)
    have hseq := triple?_of_toNat hb (by omega) (hdigit (c.toNat / 64)) (hdigit c.toNat)
      (show c.toNat = _ by omega) (by omega)
    exact decodeFrom_sequence (by omega) (sequence?_triple (by omega) hseq rest) read
  · have hb := toNat_ofNat_add (show c.toNat / 262144 % 8 + 0xf0 < 256 by omega)
    have hseq := quadruple?_of_toNat hb (by omega) (hdigit (c.toNat / 4096)) (hdigit (c.toNat / 64))
      (hdigit c.toNat) (show c.toNat = _ by omega) (by omega)
    exact decodeFrom_sequence (by omega) (sequence?_quadruple (by omega) hseq rest) read

theorem decodeFrom_flatMap_utf8EncodeChar (cs read : List Char) :
    decodeFrom 0 read (cs.flatMap String.utf8EncodeChar) = read.reverse ++ cs := by
  induction cs generalizing read with
  | nil => rw [List.flatMap_nil, decodeFrom, List.append_nil]
  | cons c cs ih =>
    rw [List.flatMap_cons, decodeFrom_utf8EncodeChar, ih, List.reverse_cons, List.append_assoc]
    rfl

theorem toUTF8_eq_flatMap (s : String) :
    s.toUTF8.data.toList = s.toList.flatMap String.utf8EncodeChar := by
  conv => lhs; rw [← String.ofList_toList (s := s)]
  rw [String.toUTF8_eq_toByteArray, String.toByteArray_ofList, List.utf8Encode, List.data_toByteArray]

/-- The bytes of a string are decoded as its characters. -/
theorem decode_toUTF8 (s : String) : decode s.toUTF8.data.toList = s.toList := by
  rw [toUTF8_eq_flatMap, decode, decodeFrom_flatMap_utf8EncodeChar]
  rfl

/-! ### Bytes left over -/

/-- How many bytes of `rest` belong to the character that begins with `b`. -/
def extent (b : UInt8) (rest : List UInt8) : Nat :=
  if b < 0x80 then 0 else ((sequence? b rest).map (·.2)).getD 0

/-- The bytes behind the first characters. -/
def dropChars : Nat → List UInt8 → List UInt8
  | 0, bytes => bytes
  | _ + 1, [] => []
  | n + 1, b :: rest => dropChars n (rest.drop (extent b rest))

theorem decodeFrom_eq_append (skip : Nat) (read : List Char) (bytes : List UInt8) :
    decodeFrom skip read bytes = read.reverse ++ decode (bytes.drop skip) := by
  induction bytes generalizing skip read with
  | nil => simp [decode, decodeFrom]
  | cons b rest ih =>
    have hnext (skip : Nat) (c : Char) :
        decodeFrom skip (c :: read) rest = read.reverse ++ decodeFrom skip [c] rest := by
      rw [ih, ih skip [c]]
      simp
    cases skip with
    | succ skip => rw [decodeFrom, List.drop_succ_cons, ih]
    | zero =>
      rw [List.drop_zero, decode, decodeFrom, decodeFrom]
      split
      · exact hnext 0 _
      · split
        · exact hnext _ _
        · exact hnext 0 replacement

theorem exists_decode_cons (b : UInt8) (rest : List UInt8) :
    ∃ c, decode (b :: rest) = c :: decode (rest.drop (extent b rest)) := by
  rw [decode, decodeFrom, extent]
  split
  · exact ⟨_, decodeFrom_eq_append 0 [_] rest⟩
  · split
    · next c more hseq => exact ⟨c, by rw [decodeFrom_eq_append, hseq]; rfl⟩
    · next hseq => exact ⟨replacement, by rw [decodeFrom_eq_append, hseq]; rfl⟩

theorem decode_dropChars (n : Nat) (bytes : List UInt8) :
    decode (dropChars n bytes) = (decode bytes).drop n := by
  fun_induction dropChars n bytes with
  | case1 bytes => rw [List.drop_zero]
  | case2 n => rfl
  | case3 n b rest ih =>
    obtain ⟨c, hc⟩ := exists_decode_cons b rest
    rw [ih, hc, List.drop_succ_cons]

theorem dropChars_suffix (n : Nat) (bytes : List UInt8) : dropChars n bytes <:+ bytes := by
  fun_induction dropChars n bytes with
  | case1 bytes => exact List.suffix_refl bytes
  | case2 n => exact List.suffix_refl []
  | case3 n b rest ih =>
    exact (ih.trans (List.drop_suffix _ rest)).trans (List.suffix_cons b rest)

theorem length_decode_le (bytes : List UInt8) : (decode bytes).length ≤ bytes.length := by
  have hfrom (skip : Nat) (read : List Char) :
      (decodeFrom skip read bytes).length ≤ read.length + bytes.length := by
    fun_induction decodeFrom skip read bytes <;> grind
  simpa [decode] using hfrom 0 []

end FlatScheme.Text
