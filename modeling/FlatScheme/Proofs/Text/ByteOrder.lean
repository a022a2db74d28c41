import FlatScheme.Proofs.Text.Utf8
import Mathlib.Tactic.SplitIfs

/-!
The order of strings is the order of their bytes.

Strings are compared by the code points of their characters. UTF-8 was made so that comparing bytes
gives the same: a longer sequence has a greater leading byte, and among sequences of one length the
digits of the code point stand in order, the most significant first.
-/

namespace FlatScheme.Text

/-- The bytes of a string. -/
def bytes (s : String) : List UInt8 := s.toUTF8.data.toList

/-- Bytes are compared from the left, and what follows matters only behind equal ones. -/
theorem ofNat_cons_lt {a b : Nat} {l l' : List UInt8} (hb : b < 256) (hle : a ≤ b)
    (h : a = b → l < l') : UInt8.ofNat a :: l < UInt8.ofNat b :: l' := by
  rw [List.cons_lt_cons_iff]
  rcases Nat.lt_or_eq_of_le hle with hlt | heq
  · left
    rw [UInt8.lt_iff_toNat_lt, UInt8.toNat_ofNat_of_lt' (Nat.lt_trans hlt hb),
      UInt8.toNat_ofNat_of_lt' hb]
    exact hlt
  · exact .inr ⟨by rw [heq], h heq⟩

theorem utf8EncodeChar_append_lt {c d : Char} (h : c < d) (l l' : List UInt8) :
    String.utf8EncodeChar c ++ l < String.utf8EncodeChar d ++ l' := by
  have hlt : c.toNat < d.toNat := h
  have hrange := toNat_lt d
  simp only [String.utf8EncodeChar, Char.toNat_val]
  generalize c.toNat = m at hlt ⊢
  generalize d.toNat = n at hlt hrange ⊢
  -- a longer sequence has the greater leading byte
  have hlead {a b : Nat} {r r' : List UInt8} (hb : b < 256) (hab : a < b) :
      UInt8.ofNat a :: r < UInt8.ofNat b :: r' :=
    ofNat_cons_lt hb (Nat.le_of_lt hab) fun h => absurd h (Nat.ne_of_lt hab)
  split_ifs
  all_goals try omega
  all_goals simp only [List.cons_append, List.nil_append]
  · exact hlead (by omega) hlt
  · exact hlead (by omega) (by omega)
  · exact hlead (by omega) (by omega)
  · exact hlead (by omega) (by omega)
  · exact ofNat_cons_lt (by omega) (by omega) fun _ => hlead (by omega) (by omega)
  · exact hlead (by omega) (by omega)
  · exact hlead (by omega) (by omega)
  · exact ofNat_cons_lt (by omega) (by omega) fun _ =>
      ofNat_cons_lt (by omega) (by omega) fun _ => hlead (by omega) (by omega)
  · exact hlead (by omega) (by omega)
  · exact ofNat_cons_lt (by omega) (by omega) fun _ =>
      ofNat_cons_lt (by omega) (by omega) fun _ =>
        ofNat_cons_lt (by omega) (by omega) fun _ => hlead (by omega) (by omega)

/-- Of two strings the lesser has the lesser bytes. -/
theorem bytes_lt_of_lt {s t : String} (h : s < t) : bytes s < bytes t := by
  rw [bytes, bytes, toUTF8_eq_flatMap, toUTF8_eq_flatMap]
  rw [String.lt_iff, ← List.lex_lt] at h
  generalize s.toList = cs at h ⊢
  generalize t.toList = ds at h ⊢
  induction h with
  | @nil d ds =>
    rw [List.flatMap_nil, List.flatMap_cons]
    cases hd : String.utf8EncodeChar d with
    | nil => exact absurd (congrArg List.length hd) (by simp [Nat.ne_of_gt d.utf8Size_pos])
    | cons b bs => exact List.nil_lt_cons b _
  | rel h => exact utf8EncodeChar_append_lt h _ _
  | cons _ ih => exact List.append_left_lt ih

end FlatScheme.Text
