import Mathlib.Data.List.TakeDrop
import Mathlib.Data.List.TakeWhile
import Midframe.Json.Value

/-!
# Numbers in data texts

A number that was read once is read again wherever it is written, as long as what follows it cannot
be a part of it. The digits of a count are those of a number, and stand for the count.
-/

namespace Midframe

namespace Numeral

/-- All characters are digits. -/
def AreDigits (digits : List Char) : Prop := ∀ c ∈ digits, c.isDigit = true

/-- What follows does not go on with digits. -/
def EndsDigits (rest : List Char) : Prop := ∀ c, rest.head? = some c → c.isDigit = false

/-- What follows does not go on with a number. -/
def EndsNumber (rest : List Char) : Prop :=
  ∀ c, rest.head? = some c → c.isDigit = false ∧ c ≠ '.' ∧ c ≠ 'e' ∧ c ≠ 'E'

theorem EndsNumber.endsDigits {rest : List Char} (h : EndsNumber rest) : EndsDigits rest :=
  fun c hc => (h c hc).1

theorem endsDigits_cons {c : Char} (h : c.isDigit = false) (rest : List Char) :
    EndsDigits (c :: rest) := by
  rintro d hd
  cases hd
  exact h

/-- The digits are a whole part: zero alone, or digits that do not start with zero. -/
structure IsWholePart (digits : List Char) : Prop where
  /-- There are some. -/
  nonempty : digits ≠ []
  /-- They are digits. -/
  areDigits : AreDigits digits
  /-- Nothing stands behind a leading zero. -/
  leading : ∀ d rest, digits ≠ '0' :: d :: rest

/-- The parts of a number are those of one that was read. -/
structure IsProper (n : Numeral) : Prop where
  /-- The whole part is one. -/
  whole : IsWholePart n.whole
  /-- The fraction consists of digits. -/
  fraction : AreDigits n.fraction
  /-- An exponent consists of digits, and has some. -/
  exponent : ∀ negative digits, n.exponent = some (negative, digits) →
    digits ≠ [] ∧ AreDigits digits

/-! ## Reading digits -/

theorem readDigits_append {digits rest : List Char} (hdigits : AreDigits digits)
    (hrest : EndsDigits rest) : readDigits (digits ++ rest) = (digits, rest) := by
  unfold readDigits
  rw [List.span_eq_takeWhile_dropWhile, List.takeWhile_append_of_pos hdigits,
    List.dropWhile_append_of_pos hdigits]
  cases rest with
  | nil => simp
  | cons c rest => simp [hrest c rfl]

theorem areDigits_of_readDigits {text digits rest : List Char}
    (h : readDigits text = (digits, rest)) : AreDigits digits := by
  unfold readDigits at h
  rw [List.span_eq_takeWhile_dropWhile] at h
  cases h
  exact fun c hc => List.mem_takeWhile_imp hc

theorem readSomeDigits_append {digits rest : List Char} (hne : digits ≠ [])
    (hdigits : AreDigits digits) (hrest : EndsDigits rest) :
    readSomeDigits (digits ++ rest) = some (digits, rest) := by
  unfold readSomeDigits
  rw [readDigits_append hdigits hrest]
  cases digits with
  | nil => exact absurd rfl hne
  | cons c digits => rfl

theorem areDigits_of_readSomeDigits {text digits rest : List Char}
    (h : readSomeDigits text = some (digits, rest)) : digits ≠ [] ∧ AreDigits digits := by
  unfold readSomeDigits at h
  split at h
  · cases h
  · next hne =>
    have hfound := Option.some.inj h
    refine ⟨?_, areDigits_of_readDigits hfound⟩
    rintro rfl
    exact hne _ hfound

theorem readWhole_append {digits rest : List Char} (h : IsWholePart digits)
    (hrest : EndsDigits rest) : readWhole (digits ++ rest) = some (digits, rest) := by
  unfold readWhole
  rw [readDigits_append h.areDigits hrest]
  split
  · next heq => exact absurd (Prod.mk.inj heq).1 h.nonempty
  · next heq => exact absurd (Prod.mk.inj heq).1 (h.leading _ _)
  · rfl

theorem isWholePart_of_readWhole {text digits rest : List Char}
    (h : readWhole text = some (digits, rest)) : IsWholePart digits := by
  unfold readWhole at h
  split at h
  · cases h
  · cases h
  · next hempty hzero =>
    have hfound := Option.some.inj h
    refine ⟨?_, areDigits_of_readDigits hfound, ?_⟩
    · rintro rfl
      exact hempty _ hfound
    · rintro d rest' rfl
      exact hzero _ _ _ hfound

/-! ## Reading numbers -/

/-- The point and the digits behind it, where there are some. -/
def fractionChars (n : Numeral) : List Char :=
  if n.fraction.isEmpty then [] else '.' :: n.fraction

/-- The mark, the sign and the digits of the exponent, where there is one. -/
def exponentChars (n : Numeral) : List Char :=
  match n.exponent with
  | none => []
  | some (negative, digits) => 'e' :: (if negative then '-' else '+') :: digits

variable {n : Numeral} {rest : List Char}

theorem readExponent_append (h : n.IsProper) (hrest : EndsNumber rest) :
    readExponent (n.exponentChars ++ rest) = some (n.exponent, rest) := by
  unfold exponentChars
  cases he : n.exponent with
  | none =>
    rw [List.nil_append]
    unfold readExponent
    split
    · exact absurd rfl (hrest _ rfl).2.2.1
    · exact absurd rfl (hrest _ rfl).2.2.2
    · rfl
  | some e =>
    obtain ⟨negative, digits⟩ := e
    obtain ⟨hne, hdigits⟩ := h.exponent negative digits he
    have hread := readSomeDigits_append hne hdigits hrest.endsDigits
    cases negative <;> simp [readExponent, readExponentDigits, hread]

theorem exponentChars_endsDigits (hrest : EndsNumber rest) :
    EndsDigits (n.exponentChars ++ rest) := by
  unfold exponentChars
  cases n.exponent with
  | none => exact hrest.endsDigits
  | some e => exact endsDigits_cons rfl _

theorem readFraction_append (h : n.IsProper) (hrest : EndsNumber rest) :
    readFraction (n.fractionChars ++ (n.exponentChars ++ rest))
      = some (n.fraction, n.exponentChars ++ rest) := by
  unfold fractionChars
  cases hf : n.fraction with
  | nil =>
    simp only [List.isEmpty_nil, ↓reduceIte, List.nil_append]
    unfold exponentChars
    cases n.exponent with
    | none =>
      simp only [List.nil_append]
      unfold readFraction
      split
      · exact absurd rfl (hrest _ rfl).2.1
      · rfl
    | some e => rfl
  | cons c digits =>
    exact readSomeDigits_append (List.cons_ne_nil _ _) (hf ▸ h.fraction)
      (exponentChars_endsDigits hrest)

theorem fractionChars_endsDigits (hrest : EndsNumber rest) :
    EndsDigits (n.fractionChars ++ (n.exponentChars ++ rest)) := by
  unfold fractionChars
  split
  · exact exponentChars_endsDigits hrest
  · exact endsDigits_cons rfl _

theorem readMinus_append {digits : List Char} (negative : Bool) (h : IsWholePart digits) :
    readMinus ((if negative then ['-'] else []) ++ (digits ++ rest))
      = (negative, digits ++ rest) := by
  cases negative with
  | true => rfl
  | false =>
    obtain ⟨c, digits, rfl⟩ := List.exists_cons_of_ne_nil h.nonempty
    have hc := h.areDigits c List.mem_cons_self
    simp only [Bool.false_eq_true, ↓reduceIte, List.nil_append, List.cons_append]
    unfold readMinus
    split
    · next heq =>
      obtain ⟨rfl, -⟩ := List.cons.inj heq
      cases hc
    · rfl

theorem chars_append (n : Numeral) (rest : List Char) : n.chars ++ rest =
    (if n.negative then ['-'] else []) ++
      (n.whole ++ (n.fractionChars ++ (n.exponentChars ++ rest))) := by
  have hchars : n.chars = (if n.negative then ['-'] else []) ++ n.whole ++ n.fractionChars ++
    n.exponentChars := rfl
  rw [hchars]
  simp only [List.append_assoc]

/-- A number is read as it was written. -/
theorem read_append (h : n.IsProper) (hrest : EndsNumber rest) :
    read (n.chars ++ rest) = some (n, rest) := by
  rw [chars_append, read, readMinus_append _ h.whole]
  simp only [Option.bind_eq_bind, Option.pure_def,
    readWhole_append h.whole (fractionChars_endsDigits hrest), Option.bind_some,
    readFraction_append h hrest, readExponent_append h hrest]

theorem areDigits_of_readExponent {text digits : List Char} {negative : Bool}
    (h : readExponent text = some (some (negative, digits), rest)) :
    digits ≠ [] ∧ AreDigits digits := by
  have hdigits {text : List Char}
      (h : readExponentDigits text = some ((negative, digits), rest)) :
      digits ≠ [] ∧ AreDigits digits := by
    unfold readExponentDigits at h
    split at h <;>
    · obtain ⟨⟨found, _⟩, hfound, heq⟩ := Option.map_eq_some_iff.mp h
      cases heq
      exact areDigits_of_readSomeDigits hfound
  have hmark {text : List Char}
      (h : ((readExponentDigits text).map fun p => (some p.1, p.2))
        = some (some (negative, digits), rest)) : digits ≠ [] ∧ AreDigits digits := by
    obtain ⟨⟨_, _⟩, hfound, heq⟩ := Option.map_eq_some_iff.mp h
    cases heq
    exact hdigits hfound
  unfold readExponent at h
  split at h
  · exact hmark h
  · exact hmark h
  · cases h

theorem isProper_of_read {text : List Char} (h : read text = some (n, rest)) : n.IsProper := by
  simp only [read, Option.bind_eq_bind, Option.bind_eq_some_iff, Option.pure_def,
    Option.some.injEq, Prod.mk.injEq, Prod.exists] at h
  obtain ⟨whole, _, hwhole, fraction, _, hfraction, exponent, _, hexponent, rfl, -⟩ := h
  refine ⟨isWholePart_of_readWhole hwhole, ?_, ?_⟩
  · simp only
    unfold readFraction at hfraction
    split at hfraction
    · exact (areDigits_of_readSomeDigits hfraction).2
    · cases hfraction
      exact fun c hc => absurd hc List.not_mem_nil
  · rintro negative digits rfl
    exact areDigits_of_readExponent hexponent

/-! ## Counts -/

theorem digitsValue_digitChars (n : Nat) : digitsValue (Decimal.digitChars n) = n := by
  have hfold : (fun sofar (c : Char) => 10 * sofar + (c.toNat - '0'.toNat))
      = fun n c => n * 10 + digitValue c := by
    funext n c
    rw [Nat.mul_comm]
    rfl
  have h : Nat.ofDigitChars 10 (Nat.toDigits 10 n) 0 = n := Nat.ofDigitChars_ten_toDigits
  rw [Nat.ofDigitChars, hfold] at h
  exact h

/-- The digits of a positive count do not start with zero. -/
theorem head?_digitChars {n : Nat} (pos : 0 < n) :
    (Decimal.digitChars n).head? ≠ some '0' := by
  induction n using Nat.strongRecOn with
  | ind n ih =>
    unfold Decimal.digitChars at ih ⊢
    by_cases hsmall : n < 10
    · rw [Nat.toDigits_of_lt_base hsmall]
      have hdigits : ∀ d < 10, 0 < d → [d.digitChar].head? ≠ some '0' := by decide
      exact hdigits n hsmall pos
    · have hhead := ih (n / 10) (by omega) (by omega)
      rw [List.head?_eq_some_head Nat.toDigits_ne_nil] at hhead
      rw [Nat.toDigits_of_base_le (by decide) (Nat.not_lt.mp hsmall), List.head?_append,
        List.head?_eq_some_head Nat.toDigits_ne_nil, Option.some_or]
      exact hhead

theorem isWholePart_digitChars (n : Nat) : IsWholePart (Decimal.digitChars n) where
  nonempty := Nat.toDigits_ne_nil
  areDigits := fun _ hc => Nat.isDigit_of_mem_toDigits (by decide) (by decide) hc
  leading := by
    intro d rest h
    rcases Nat.eq_zero_or_pos n with rfl | pos
    · rw [Decimal.digitChars, Nat.toDigits_zero] at h
      cases h
    · exact head?_digitChars pos (by rw [h]; rfl)

theorem isProper_ofNat (n : Nat) : (ofNat n).IsProper where
  whole := isWholePart_digitChars n
  fraction := fun _ hc => absurd hc List.not_mem_nil
  exponent := fun _ _ h => nomatch h

theorem count?_ofNat {n : Nat} (h : n ≤ maxCount) : (ofNat n).count? = some n := by
  simp [count?, ofNat, isWhole, digitsValue_digitChars, h]

end Numeral

end Midframe
