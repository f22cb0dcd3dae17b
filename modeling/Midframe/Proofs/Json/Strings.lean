import Midframe.Json.Read

/-!
# Strings in data texts

A text that is written as a string is read back: its escapes are read character by character up to
the closing quotation mark, and they stand for the characters that they were written for.
-/

namespace Midframe

namespace Quoted

/-- A control character is written as the four digits of its number. -/
theorem hexWord?_hexChar : ∀ n < 32,
    hexWord? '0' '0' (hexChar (n / 16)) (hexChar (n % 16)) = some n := by decide

/-- The character is written as itself. -/
structure IsPlain (c : Char) : Prop where
  /-- It does not end a string. -/
  not_quote : c ≠ '"'
  /-- It does not start an escape. -/
  not_backslash : c ≠ '\\'
  /-- It is no control character. -/
  not_control : ¬c < ' '

/-- How a character is written: as itself, behind a backslash, or by its number. -/
theorem escapeChar_cases (c : Char) :
    (IsPlain c ∧ escapeChar c = [c]) ∨
    (∃ d, d ≠ 'u' ∧ escaped? d = some c ∧ escapeChar c = ['\\', d]) ∨
    (c.toNat < 32 ∧ escapeChar c =
      ['\\', 'u', '0', '0', hexChar (c.toNat / 16), hexChar (c.toNat % 16)]) := by
  unfold escapeChar
  split
  · exact .inr (.inl ⟨'"', by decide, rfl, rfl⟩)
  · exact .inr (.inl ⟨'\\', by decide, rfl, rfl⟩)
  · exact .inr (.inl ⟨'b', by decide, rfl, rfl⟩)
  · exact .inr (.inl ⟨'f', by decide, rfl, rfl⟩)
  · exact .inr (.inl ⟨'n', by decide, rfl, rfl⟩)
  · exact .inr (.inl ⟨'r', by decide, rfl, rfl⟩)
  · exact .inr (.inl ⟨'t', by decide, rfl, rfl⟩)
  · next hquote hbackslash _ _ _ _ _ =>
    split
    · next hcontrol => exact .inr (.inr ⟨hcontrol, rfl⟩)
    · next hcontrol => exact .inl ⟨⟨hquote, hbackslash, hcontrol⟩, rfl⟩

section Plain

variable {c : Char} (h : IsPlain c) (rest : List Char)
include h

theorem readBody_plain :
    readBody (c :: rest) = (readBody rest).map fun p => (c :: p.1, p.2) := by
  rw [readBody.eq_def]
  split
  · next heq => cases heq
  · next heq => exact absurd (List.cons.inj heq).1 h.not_quote
  · next heq => exact absurd (List.cons.inj heq).1 h.not_backslash
  · next heq => exact absurd (List.cons.inj heq).1 h.not_backslash
  · next heq =>
    obtain ⟨rfl, rfl⟩ := List.cons.inj heq
    rw [if_neg]
    simp only [Bool.or_eq_true, decide_eq_true_eq, beq_iff_eq, not_or]
    exact ⟨h.not_control, h.not_backslash⟩

theorem decodeBody_plain : decodeBody (c :: rest) = (decodeBody rest).map (c :: ·) := by
  rw [decodeBody.eq_def]
  split
  · next heq => cases heq
  · next heq => exact absurd (List.cons.inj heq).1 h.not_backslash
  · next heq => exact absurd (List.cons.inj heq).1 h.not_backslash
  · next heq => exact absurd (List.cons.inj heq).1 h.not_backslash
  · next heq =>
    obtain ⟨rfl, rfl⟩ := List.cons.inj heq
    cases decodeBody rest <;> rfl

end Plain

section Escaped

variable {c d : Char} (hu : d ≠ 'u') (h : escaped? d = some c) (rest : List Char)
include hu h

theorem readBody_escaped :
    readBody ('\\' :: d :: rest) = (readBody rest).map fun p => ('\\' :: d :: p.1, p.2) := by
  rw [readBody.eq_def]
  split
  · next heq => cases heq
  · next heq => exact absurd (List.cons.inj heq).1 (by decide)
  · next heq => exact absurd (List.cons.inj (List.cons.inj heq).2).1 hu
  · next heq =>
    obtain ⟨rfl, rfl⟩ := List.cons.inj (List.cons.inj heq).2
    rw [h]
    rfl
  · next hescape heq =>
    obtain ⟨rfl, rfl⟩ := List.cons.inj heq
    exact absurd rfl (hescape _ _ rfl)

theorem decodeBody_escaped :
    decodeBody ('\\' :: d :: rest) = (decodeBody rest).map (c :: ·) := by
  rw [decodeBody.eq_def]
  split
  · next heq => cases heq
  · next heq => exact absurd (List.cons.inj (List.cons.inj heq).2).1 hu
  · next heq =>
    obtain ⟨rfl, rfl⟩ := List.cons.inj (List.cons.inj heq).2
    rw [h]
    cases decodeBody rest <;> rfl
  · next heq => cases (List.cons.inj heq).2
  · next hescape _ heq =>
    obtain ⟨rfl, rfl⟩ := List.cons.inj heq
    exact absurd rfl (hescape _ _ rfl)

end Escaped

theorem readBody_escapeChar (c : Char) (rest : List Char) :
    readBody (escapeChar c ++ rest) =
      (readBody rest).map fun p => (escapeChar c ++ p.1, p.2) := by
  rcases escapeChar_cases c with ⟨hplain, h⟩ | ⟨d, hu, hd, h⟩ | ⟨hcontrol, h⟩
  · rw [h]
    exact readBody_plain hplain rest
  · rw [h]
    exact readBody_escaped hu hd rest
  · rw [h]
    simp only [List.cons_append, List.nil_append, readBody, hexWord?_hexChar _ hcontrol,
      Option.isSome_some, ↓reduceIte]

theorem decodeBody_escapeChar (c : Char) (rest : List Char) :
    decodeBody (escapeChar c ++ rest) = (decodeBody rest).map (c :: ·) := by
  rcases escapeChar_cases c with ⟨hplain, h⟩ | ⟨d, hu, hd, h⟩ | ⟨hcontrol, h⟩
  · rw [h]
    exact decodeBody_plain hplain rest
  · rw [h]
    exact decodeBody_escaped hu hd rest
  · have hhigh : isHighSurrogate c.toNat = false := by simp [isHighSurrogate]; omega
    have hlow : isLowSurrogate c.toNat = false := by simp [isLowSurrogate]; omega
    rw [h]
    simp only [List.cons_append, List.nil_append, decodeBody, hexWord?_hexChar _ hcontrol,
      Option.bind_eq_bind, Option.bind_some, hhigh, hlow, Bool.false_eq_true, ↓reduceIte,
      Char.ofNat_toNat]
    cases decodeBody rest <;> rfl

/-- A text is read up to the closing quotation mark. -/
theorem readBody_ofString (s : String) (rest : List Char) :
    readBody ((ofString s).body ++ '"' :: rest) = some ((ofString s).body, rest) := by
  unfold ofString
  simp only
  induction s.toList with
  | nil => simp [readBody]
  | cons c cs ih =>
    rw [List.flatMap_cons, List.append_assoc, readBody_escapeChar, ih]
    rfl

/-- What is written for a text stands for it. -/
theorem decode?_ofString (s : String) : decode? (ofString s) = some s := by
  have hbody (cs : List Char) : decodeBody (cs.flatMap escapeChar) = some cs := by
    induction cs with
    | nil => simp [decodeBody]
    | cons c cs ih =>
      rw [List.flatMap_cons, decodeBody_escapeChar, ih]
      rfl
  rw [decode?, ofString, hbody, Option.map_some, String.ofList_toList]

end Quoted

end Midframe
