import Midframe.Keyed

/-!
# Texts in byte order

Texts are ordered by their characters, one by one, and characters by their code points. The bytes
that encode a text order it in the same way: the first byte of a longer encoding is the larger one,
and encodings of the same length hold the code point digit by digit, the highest digit first.
-/

namespace Midframe

/-- The bytes of a text. -/
def textBytes (s : String) : List UInt8 := s.toUTF8.data.toList

theorem textBytes_eq (s : String) : textBytes s = s.toList.flatMap String.utf8EncodeChar := by
  rw [textBytes, String.toUTF8_eq_toByteArray, ← String.utf8Encode_toList, List.utf8Encode,
    List.toList_data_toByteArray]

/-- Some bytes stand before others in the order, and so they do whatever bytes follow. -/
def Precedes (l l' : List UInt8) : Prop := ∀ rest rest', l ++ rest < l' ++ rest'

namespace Precedes

variable {a b : Nat} {l l' : List UInt8}

/-- The first byte decides. -/
theorem head (hlt : a < b) (hb : b < 256) (l l' : List UInt8) :
    Precedes (UInt8.ofNat a :: l) (UInt8.ofNat b :: l') := by
  intro rest rest'
  rw [List.cons_append, List.cons_append, List.cons_lt_cons_iff, UInt8.lt_iff_toNat_lt,
    UInt8.toNat_ofNat_of_lt' (Nat.lt_trans hlt hb), UInt8.toNat_ofNat_of_lt' hb]
  exact .inl hlt

/-- The others decide if the first byte is the same. -/
theorem cons (hle : a ≤ b) (hb : b < 256) (hrest : a = b → Precedes l l') :
    Precedes (UInt8.ofNat a :: l) (UInt8.ofNat b :: l') := by
  rcases Nat.lt_or_eq_of_le hle with hlt | rfl
  · exact head hlt hb l l'
  · intro rest rest'
    rw [List.cons_append, List.cons_append, List.cons_lt_cons_iff]
    exact .inr ⟨rfl, hrest rfl rest rest'⟩

end Precedes

theorem utf8EncodeChar_precedes {c d : Char} (h : c < d) :
    Precedes (String.utf8EncodeChar c) (String.utf8EncodeChar d) := by
  have hlt : c.val.toNat < d.val.toNat := h
  have hvalid : d.val.toNat < 0x110000 := by
    have hvalid := d.valid
    unfold UInt32.isValidChar Nat.isValidChar at hvalid
    omega
  unfold String.utf8EncodeChar
  generalize c.val.toNat = v at hlt
  generalize d.val.toNat = w at hlt hvalid
  simp only
  -- The cases are the lengths of the two encodings. A longer one has the larger first byte.
  split
  · split
    · exact .head (by omega) (by omega) _ _
    · split
      · exact .head (by omega) (by omega) _ _
      · split
        · exact .head (by omega) (by omega) _ _
        · exact .head (by omega) (by omega) _ _
  · rw [if_neg (by omega : ¬w ≤ 0x7f)]
    split
    · split
      · refine .cons (by omega) (by omega) fun _ => ?_
        exact .head (by omega) (by omega) _ _
      · split
        · exact .head (by omega) (by omega) _ _
        · exact .head (by omega) (by omega) _ _
    · rw [if_neg (by omega : ¬w ≤ 0x7ff)]
      split
      · split
        · refine .cons (by omega) (by omega) fun _ => .cons (by omega) (by omega) fun _ => ?_
          exact .head (by omega) (by omega) _ _
        · exact .head (by omega) (by omega) _ _
      · rw [if_neg (by omega : ¬w ≤ 0xffff)]
        refine .cons (by omega) (by omega) fun _ => .cons (by omega) (by omega) fun _ => ?_
        refine .cons (by omega) (by omega) fun _ => ?_
        exact .head (by omega) (by omega) _ _

theorem encode_lt_encode {cs ds : List Char} (h : cs < ds) :
    cs.flatMap String.utf8EncodeChar < ds.flatMap String.utf8EncodeChar := by
  induction h with
  | nil =>
    rw [List.flatMap_nil, List.flatMap_cons]
    cases hfirst : String.utf8EncodeChar _ with
    | nil => exact absurd hfirst String.utf8EncodeChar_ne_nil
    | cons b rest => exact .nil
  | cons _ ih =>
    rw [List.flatMap_cons, List.flatMap_cons]
    exact List.append_left_lt ih
  | rel hlt =>
    rw [List.flatMap_cons, List.flatMap_cons]
    exact utf8EncodeChar_precedes hlt _ _

/-- A smaller text has the smaller bytes. -/
theorem textBytes_lt_of_compare {s t : String} (h : compare s t = .lt) :
    textBytes s < textBytes t := by
  have hlt : s < t := by
    have h : compareOfLessAndEq s t = .lt := h
    unfold compareOfLessAndEq at h
    split at h
    · assumption
    · split at h <;> cases h
  rw [textBytes_eq, textBytes_eq]
  exact encode_lt_encode hlt

end Midframe
