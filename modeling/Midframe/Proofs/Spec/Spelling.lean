import Mathlib
import Midframe.Spec.Token

/-!
# What spells a token

The tokens are told here by their characters alone: which stretches of a text spell a number, a word
or a symbol. Cutting takes the longest stretch that spells a token, wherever it stands. Nothing that
spells a token contains a blank or a character of more than one byte.
-/

namespace Midframe

namespace Token

/-- A stretch of characters spells a token. -/
inductive Spells : List Char → Token → Prop
  /-- Digits are a number. -/
  | whole {digits : List Char} : digits ≠ [] → digits.all Char.isDigit = true →
    Spells digits (.number (numberValue digits []))
  /-- A number may have digits behind a point, and then needs none in front of it. -/
  | fraction {digits behind : List Char} : digits.all Char.isDigit = true → behind ≠ [] →
    behind.all Char.isDigit = true →
    Spells (digits ++ '.' :: behind) (.number (numberValue digits behind))
  /-- A letter or an underscore starts a word, which goes on with these and with digits. -/
  | word {c : Char} {cs : List Char} : isWordStart c = true → cs.all isWordPart = true →
    Spells (c :: cs) (.ident (String.ofList (c :: cs)))
  /-- A symbol stands alone. -/
  | symbol {c : Char} {t : Token} : symbol? c = some t → Spells [c] t

/-- A stretch of characters is the longest one that spells a token where it starts. -/
structure IsLongest (word rest : List Char) (t : Token) : Prop where
  /-- The stretch spells the token. -/
  spells : Spells word t
  /-- No longer stretch spells any token. -/
  longest : ∀ v u, v <+: word ++ rest → Spells v u → v.length ≤ word.length

/-! ## Characters of tokens -/

/-- Characters of tokens take one byte, and separate nothing. -/
structure IsSolid (c : Char) : Prop where
  /-- The character is ASCII. -/
  size : c.utf8Size = 1
  /-- The character is not a blank. -/
  visible : isBlank c = false

theorem isSolid_of_range {c : Char} (low : 32 < c.toNat) (high : c.toNat < 128) : IsSolid c := by
  refine ⟨Char.utf8Size_eq_one_iff.mpr (UInt32.le_iff_toNat_le.mpr (Nat.le_of_lt_succ high)), ?_⟩
  have hspace : (c == ' ') = false := by
    rw [beq_eq_false_iff_ne]
    rintro rfl
    exact absurd low (by decide)
  rw [isBlank, hspace, Bool.false_or, Bool.and_eq_false_iff, decide_eq_false_iff_not,
    decide_eq_false_iff_not]
  omega

theorem isSolid_of_isWordPart {c : Char} (h : isWordPart c = true) : IsSolid c := by
  have hrange {low high : UInt32} (hc : low.toNat ≤ c.val.toNat ∧ c.val.toNat ≤ high.toNat)
      (hlow : 32 < low.toNat) (hhigh : high.toNat < 128) : IsSolid c :=
    isSolid_of_range (hlow.trans_le hc.1) (hc.2.trans_lt hhigh)
  simp only [isWordPart, Char.isAlphanum, Char.isAlpha, Char.isUpper, Char.isLower, Char.isDigit,
    Bool.or_eq_true, Bool.and_eq_true, decide_eq_true_eq, beq_iff_eq, ge_iff_le,
    UInt32.le_iff_toNat_le] at h
  rcases h with ((hupper | hlower) | hdigit) | rfl
  · exact hrange hupper (by decide) (by decide)
  · exact hrange hlower (by decide) (by decide)
  · exact hrange hdigit (by decide) (by decide)
  · exact isSolid_of_range (by decide) (by decide)

theorem isWordPart_of_isDigit {c : Char} (h : c.isDigit = true) : isWordPart c = true := by
  simp [isWordPart, Char.isAlphanum, h]

theorem isWordPart_of_isWordStart {c : Char} (h : isWordStart c = true) : isWordPart c = true := by
  simp only [isWordStart, Bool.or_eq_true] at h
  rcases h with h | h <;> simp [isWordPart, Char.isAlphanum, h]

theorem isSolid_of_symbol {c : Char} {t : Token} (h : symbol? c = some t) : IsSolid c := by
  unfold symbol? at h
  split at h <;> cases h <;> exact isSolid_of_range (by decide) (by decide)

variable {word rest cs : List Char} {t u : Token}

/-- All characters of tokens are solid. -/
theorem Spells.solid (h : Spells word t) : ∀ c ∈ word, IsSolid c := by
  have hdigits {digits : List Char} (hall : digits.all Char.isDigit = true) :
      ∀ c ∈ digits, IsSolid c := fun c hc =>
    isSolid_of_isWordPart (isWordPart_of_isDigit (List.all_eq_true.mp hall c hc))
  cases h with
  | whole _ hall => exact hdigits hall
  | fraction hall _ hbehind =>
    intro c hc
    rcases List.mem_append.mp hc with hc | hc
    · exact hdigits hall c hc
    · rcases List.mem_cons.mp hc with rfl | hc
      · exact isSolid_of_range (by decide) (by decide)
      · exact hdigits hbehind c hc
  | word hstart hall =>
    intro c hc
    rcases List.mem_cons.mp hc with rfl | hc
    · exact isSolid_of_isWordPart (isWordPart_of_isWordStart hstart)
    · exact isSolid_of_isWordPart (List.all_eq_true.mp hall c hc)
  | symbol hsymbol =>
    intro c hc
    rw [List.mem_singleton.mp hc]
    exact isSolid_of_symbol hsymbol

theorem Spells.ne_nil (h : Spells word t) : word ≠ [] := by
  cases h with
  | whole hne _ => exact hne
  | fraction => exact List.append_ne_nil_of_right_ne_nil _ (List.cons_ne_nil _ _)
  | word => exact List.cons_ne_nil _ _
  | symbol => exact List.cons_ne_nil _ _

/-! ## The longest token -/

/-- What a text starts with, if there are digits or a fraction. -/
theorem longest?_of_digits {whole : List Char} (hwhole : cs.takeWhile Char.isDigit = whole)
    (h : whole ≠ [] ∨ (fraction? (cs.drop whole.length)).isSome) :
    longest? cs = some (match fraction? (cs.drop whole.length) with
      | none => (.number (numberValue whole []), whole.length)
      | some f => (.number (numberValue whole f), whole.length + 1 + f.length)) := by
  have hnumber : number? cs = some (whole, fraction? (cs.drop whole.length)) := by
    simp only [number?, hwhole]
    rw [if_neg]
    rw [Bool.and_eq_true, List.isEmpty_iff, Option.isNone_iff_eq_none]
    rintro ⟨hnil, hnone⟩
    rw [hnone] at h
    exact h.elim (absurd hnil) (by simp)
  unfold longest?
  rw [hnumber]
  cases fraction? (cs.drop whole.length) <;> rfl

theorem number?_eq_none {c : Char} (digit : c.isDigit = false) (point : c ≠ '.') :
    number? (c :: rest) = none := by
  have hwhole : (c :: rest).takeWhile Char.isDigit = [] :=
    List.takeWhile_cons_of_neg (by simp [digit])
  have hfraction : fraction? (c :: rest) = none := by
    unfold fraction?
    split
    · next heq => exact absurd (List.cons.inj heq).1 point
    · rfl
  simp only [number?, hwhole, List.length_nil, List.drop_zero, hfraction, List.isEmpty_nil,
    Option.isNone_none, Bool.and_self, ↓reduceIte]

theorem takeWhile_append_of_all {p : Char → Bool} (h : word.all p = true) (rest : List Char) :
    (word ++ rest).takeWhile p = word ++ rest.takeWhile p :=
  List.takeWhile_append_of_pos (List.all_eq_true.mp h)

theorem fraction?_of_digits {digits : List Char} (hne : digits ≠ [])
    (hall : digits.all Char.isDigit = true) (rest : List Char) :
    fraction? ('.' :: (digits ++ rest)) = some (digits ++ rest.takeWhile Char.isDigit) := by
  have hcons : digits ++ rest.takeWhile Char.isDigit ≠ [] :=
    List.append_ne_nil_of_left_ne_nil hne _
  rw [fraction?, takeWhile_append_of_all hall]
  split
  · next hnil => exact absurd hnil hcons
  · rfl

theorem isWordStart_ne {c : Char} (h : isWordStart c = true) : c.isDigit = false ∧ c ≠ '.' := by
  constructor
  · rw [Bool.eq_false_iff]
    intro hdigit
    simp only [isWordStart, Char.isAlpha, Char.isUpper, Char.isLower, Char.isDigit, Bool.or_eq_true,
      Bool.and_eq_true, decide_eq_true_eq, beq_iff_eq, ge_iff_le,
      UInt32.le_iff_toNat_le] at h hdigit
    have hnine : c.val.toNat ≤ 57 := hdigit.2
    rcases h with (h | h) | rfl
    · exact absurd (h.1.trans hnine) (by decide)
    · exact absurd (h.1.trans hnine) (by decide)
    · exact absurd hnine (by decide)
  · rintro rfl
    exact absurd h (by decide)

/-- A text that starts with what spells a token has a token at least as long, and the same one if it
is no longer. -/
theorem Spells.exists_longest (h : Spells word t) (rest : List Char) :
    ∃ u n, longest? (word ++ rest) = some (u, n) ∧ word.length ≤ n ∧ (n = word.length → u = t) := by
  cases h with
  | whole hne hall =>
    have hwhole := takeWhile_append_of_all hall rest
    have hcons := List.append_ne_nil_of_left_ne_nil hne (rest.takeWhile Char.isDigit)
    rw [longest?_of_digits hwhole (.inl hcons)]
    cases fraction? ((word ++ rest).drop (word ++ rest.takeWhile Char.isDigit).length) with
    | none =>
      refine ⟨_, _, rfl, by simp, fun hlength => ?_⟩
      rw [List.length_append, Nat.add_eq_left, List.length_eq_zero_iff] at hlength
      rw [hlength, List.append_nil]
    | some f =>
      refine ⟨_, _, rfl, by simp only [List.length_append]; omega, fun hlength => ?_⟩
      simp only [List.length_append] at hlength
      omega
  | @fraction digits behind hall hne hbehind =>
    have hwhole : (digits ++ '.' :: behind ++ rest).takeWhile Char.isDigit = digits := by
      rw [List.append_assoc, takeWhile_append_of_all hall, List.cons_append,
        List.takeWhile_cons_of_neg (by decide), List.append_nil]
    have hfraction : fraction? ((digits ++ '.' :: behind ++ rest).drop digits.length)
        = some (behind ++ rest.takeWhile Char.isDigit) := by
      rw [List.append_assoc, List.drop_left, List.cons_append, fraction?_of_digits hne hbehind]
    rw [longest?_of_digits hwhole (.inr (by rw [hfraction]; rfl)), hfraction]
    refine ⟨_, _, rfl, by simp only [List.length_append, List.length_cons]; omega,
      fun hlength => ?_⟩
    have hnil : rest.takeWhile Char.isDigit = [] := by
      simp only [List.length_append, List.length_cons] at hlength
      exact List.length_eq_zero_iff.mp (by omega)
    rw [hnil, List.append_nil]
  | @word c cs hstart hall =>
    obtain ⟨hdigit, hpoint⟩ := isWordStart_ne hstart
    have hlongest : longest? (c :: cs ++ rest)
        = some (.ident (String.ofList (c :: (cs ++ rest.takeWhile isWordPart))),
          (c :: (cs ++ rest.takeWhile isWordPart)).length) := by
      simp only [longest?, List.cons_append, number?_eq_none hdigit hpoint, hstart, ↓reduceIte,
        takeWhile_append_of_all hall]
    refine ⟨_, _, hlongest, by simp, fun hlength => ?_⟩
    have hnil : rest.takeWhile isWordPart = [] := by
      simp only [List.length_append, List.length_cons] at hlength
      exact List.length_eq_zero_iff.mp (by omega)
    rw [hnil, List.append_nil]
  | @symbol c t hsymbol =>
    refine ⟨t, 1, ?_, Nat.le_refl _, fun _ => rfl⟩
    unfold symbol? at hsymbol
    split at hsymbol <;> cases hsymbol <;> rfl

/-- The digits that a text starts with. -/
theorem all_takeWhile_append_drop (p : Char → Bool) (cs : List Char) :
    (cs.takeWhile p).all p = true ∧ cs = cs.takeWhile p ++ cs.drop (cs.takeWhile p).length := by
  refine ⟨List.all_eq_true.mpr fun c hc => List.mem_takeWhile_imp hc, ?_⟩
  exact (List.prefix_iff_eq_append.mp (List.takeWhile_prefix p)).symm

theorem fraction?_eq_some {f : List Char} (h : fraction? cs = some f) :
    f ≠ [] ∧ ∃ tail, cs = '.' :: tail ∧ f = tail.takeWhile Char.isDigit := by
  unfold fraction? at h
  split at h
  · next tail =>
    split at h
    · cases h
    · next hne =>
      cases h
      exact ⟨hne, tail, rfl, rfl⟩
  · cases h

/-- What a text starts with, if there are neither digits nor a fraction. -/
theorem longest?_of_no_digits {c : Char} (h : ¬((c :: rest).takeWhile Char.isDigit ≠ [] ∨
    (fraction? ((c :: rest).drop ((c :: rest).takeWhile Char.isDigit).length)).isSome)) :
    longest? (c :: rest) = if isWordStart c then
        some (.ident (String.ofList (c :: rest.takeWhile isWordPart)),
          (c :: rest.takeWhile isWordPart).length)
      else (symbol? c).map fun t => (t, 1) := by
  have hnone : number? (c :: rest) = none := by
    rw [not_or, not_not, Bool.not_eq_true, Option.isSome_eq_false_iff] at h
    obtain ⟨hnil, hfraction⟩ := h
    rw [hnil] at hfraction
    simp only [number?, hnil, hfraction, List.isEmpty_nil, Bool.and_self, ↓reduceIte]
  unfold longest?
  rw [hnone]

/-- The longest token is spelled by the characters that it covers. -/
theorem spells_of_longest {n : Nat} (h : longest? cs = some (t, n)) :
    ∃ word rest, cs = word ++ rest ∧ word.length = n ∧ Spells word t := by
  have hdigits := all_takeWhile_append_drop Char.isDigit cs
  by_cases hnumber : cs.takeWhile Char.isDigit ≠ [] ∨
      (fraction? (cs.drop (cs.takeWhile Char.isDigit).length)).isSome
  · rw [longest?_of_digits rfl hnumber] at h
    cases hf : fraction? (cs.drop (cs.takeWhile Char.isDigit).length) with
    | none =>
      rw [hf] at h hnumber
      cases h
      exact ⟨_, _, hdigits.2, rfl, .whole (hnumber.resolve_right (by simp)) hdigits.1⟩
    | some f =>
      rw [hf] at h
      cases h
      obtain ⟨hne, tail, htail, rfl⟩ := fraction?_eq_some hf
      obtain ⟨hall, hrest⟩ := all_takeWhile_append_drop Char.isDigit tail
      refine ⟨_, tail.drop (tail.takeWhile Char.isDigit).length, ?_, ?_,
        .fraction hdigits.1 hne hall⟩
      · rw [List.append_assoc, List.cons_append, ← hrest, ← htail]
        exact hdigits.2
      · simp only [List.length_append, List.length_cons]
        omega
  · cases cs with
    | nil => cases h
    | cons c rest =>
      rw [longest?_of_no_digits hnumber] at h
      split at h
      · next hstart =>
        cases h
        obtain ⟨hall, hrest⟩ := all_takeWhile_append_drop isWordPart rest
        exact ⟨_, _, congrArg _ hrest, rfl, .word hstart hall⟩
      · obtain ⟨_, hsymbol, hpair⟩ := Option.map_eq_some_iff.mp h
        cases hpair
        exact ⟨[c], rest, rfl, rfl, .symbol hsymbol⟩

/-- The longest token is found. -/
theorem longest?_eq_some : longest? (word ++ rest) = some (t, word.length) ↔
    IsLongest word rest t := by
  constructor
  · intro h
    obtain ⟨v, rest', hsplit, hlength, hspells⟩ := spells_of_longest h
    obtain ⟨rfl, rfl⟩ := List.append_inj hsplit hlength.symm
    refine ⟨hspells, fun v u hv hspells => ?_⟩
    obtain ⟨rest', hrest⟩ := hv
    obtain ⟨_, n, hfound, hle, -⟩ := hspells.exists_longest rest'
    rw [hrest, h] at hfound
    cases hfound
    exact hle
  · intro h
    obtain ⟨u, n, hfound, hle, hsame⟩ := h.spells.exists_longest rest
    obtain ⟨v, rest', hsplit, rfl, hspells⟩ := spells_of_longest hfound
    have heq := Nat.le_antisymm (h.longest v u ⟨rest', hsplit.symm⟩ hspells) hle
    rw [hfound, hsame heq, heq]

theorem longest?_eq_none : longest? cs = none ↔ ∀ word t, word <+: cs → ¬Spells word t := by
  constructor
  · rintro h word t ⟨rest, rfl⟩ hspells
    obtain ⟨u, n, hfound, -⟩ := hspells.exists_longest rest
    rw [h] at hfound
    cases hfound
  · intro h
    cases hfound : longest? cs with
    | none => rfl
    | some found =>
      obtain ⟨word, rest, rfl, -, hspells⟩ := spells_of_longest hfound
      exact absurd hspells (h word _ ⟨rest, rfl⟩)

/-- What spells a token is the longest such stretch where nothing follows. -/
theorem Spells.isLongest (h : Spells word t) : IsLongest word [] t := by
  refine ⟨h, fun v u hv _ => ?_⟩
  rw [List.append_nil] at hv
  exact hv.length_le

end Token

end Midframe
