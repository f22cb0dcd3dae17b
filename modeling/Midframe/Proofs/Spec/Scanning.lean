import Midframe.Command.LogFilter
import Midframe.Proofs.ByteOrder
import Midframe.Proofs.Spec.Cutting
import Midframe.Text.Character

/-!
# Scanning byte by byte

A text can also be scanned by its bytes, where each byte is taken for a character of its own. The
bytes 0x85 and 0xA0 are white space when they are taken in this way, and the parts of the text have
to be cut at the borders of its characters. Both never matter: the scanner stands in front of a
character whenever it looks for a token, and the first byte of a character of several bytes neither
is white space nor starts a token.

Scanning by bytes therefore comes to an end, cuts no character and finds the tokens that are cut
from the characters; and what it takes for a number always is one.
-/

namespace Midframe

open String (utf8Len utf8Len_nil utf8Len_cons utf8Len_append)

namespace Token

/-! ## The scanner -/

/-- A byte, taken for a character. -/
def byteChar (b : UInt8) : Char := Char.ofNat b.toNat

/-- The bytes of a text, taken for characters. -/
def bytesOf (text : String) : List Char := (textBytes text).map byteChar

/-- Why scanning stops. -/
inductive Refusal
  /-- No token starts with a character. -/
  | unexpected (position : Nat) (c : Char)
  /-- What should be a number cannot be read. -/
  | invalidNumber (position : Nat)
deriving DecidableEq, Repr

/-- Whether there is a digit at a position. -/
def isDigitAt (bytes : List Char) (i : Nat) : Bool := bytes[i]?.any Char.isDigit

/-- Whether there is a point at a position, with a digit behind it. -/
def isPointAt (bytes : List Char) (i : Nat) : Bool :=
  bytes[i]? == some '.' && isDigitAt bytes (i + 1)

/-- The position behind characters of a kind. -/
def skip (p : Char → Bool) (bytes : List Char) (i : Nat) : Nat :=
  if h : i < bytes.length then
    if p bytes[i] then skip p bytes (i + 1) else i
  else i
termination_by bytes.length - i

/-- The position behind a number. -/
def skipNumber (bytes : List Char) (i : Nat) : Nat :=
  let j := skip Char.isDigit bytes i
  if isPointAt bytes j then skip Char.isDigit bytes (j + 1) else j

/-- The part of a text between two bytes, unless it starts or ends inside a character. -/
def slice? (text : String) (start stop : Nat) : Option (List Char) :=
  match LogFilter.between text.toList start stop with
  | .ok part => some part
  | .error _ => none

/-- The number that some characters are. -/
def decimal? (word : List Char) : Option Float :=
  if isNumber word then
    let whole := word.takeWhile Char.isDigit
    some (numberValue whole (word.drop (whole.length + 1)))
  else none

/-- The token at a byte, which is taken for the character `c`. There is no result if a part of the
text starts or ends inside a character. -/
def tokenAt (text : String) (c : Char) (i : Nat) : Option (Except Refusal Located) :=
  if isDigitAt (bytesOf text) i || isPointAt (bytesOf text) i then
    let stop := skipNumber (bytesOf text) i
    (slice? text i stop).map fun word => match decimal? word with
      | some v => .ok ⟨.number v, i, stop⟩
      | none => .error (.invalidNumber i)
  else if isWordStart c then
    let stop := skip isWordPart (bytesOf text) (i + 1)
    (slice? text i stop).map fun word => .ok ⟨.ident (String.ofList word), i, stop⟩
  else match symbol? c with
    | some t => some (.ok ⟨t, i, i + 1⟩)
    | none => (slice? text i (bytesOf text).length).map fun rest =>
      .error (.unexpected i (rest.headD c))

/-- Scans from a byte on, in a number of rounds, which have to suffice. -/
def scanBytes (text : String) : Nat → Nat → Option (Except Refusal (List Located))
  | 0, _ => none
  | rounds + 1, i =>
    match (bytesOf text)[i]? with
    | none => some (.ok [])
    | some c =>
      if isWhiteSpace c then scanBytes text rounds (i + 1)
      else match tokenAt text c i with
        | none => none
        | some (.error refusal) => some (.error refusal)
        | some (.ok l) => (scanBytes text rounds l.stop).map (·.map (l :: ·))

/-! ## Characters and their bytes -/

/-- The bytes of some characters, taken for characters. -/
def encode (cs : List Char) : List Char := (cs.flatMap String.utf8EncodeChar).map byteChar

theorem bytesOf_eq (text : String) : bytesOf text = encode text.toList := by
  rw [bytesOf, textBytes_eq, encode]

theorem encode_append (cs ds : List Char) : encode (cs ++ ds) = encode cs ++ encode ds := by
  rw [encode, List.flatMap_append, List.map_append, encode, encode]

theorem length_encode (cs : List Char) : (encode cs).length = utf8Len cs := by
  induction cs with
  | nil => rfl
  | cons c cs ih =>
    have hcons : encode (c :: cs) = encode [c] ++ encode cs := encode_append [c] cs
    rw [hcons, List.length_append, ih, utf8Len_cons]
    simp [encode, Nat.add_comm]

theorem length_le_utf8Len (cs : List Char) : cs.length ≤ utf8Len cs := by
  induction cs with
  | nil => exact Nat.le_refl _
  | cons c cs ih => exact Nat.add_le_add ih c.utf8Size_pos

theorem byteChar_eq {c : Char} (h : c.utf8Size = 1) : byteChar c.val.toUInt8 = c := by
  have hlt : c.toNat < 128 :=
    Nat.lt_succ_of_le (UInt32.le_iff_toNat_le.mp (Char.utf8Size_eq_one_iff.mp h))
  have hnat : c.val.toUInt8.toNat = c.toNat := by
    rw [UInt32.toNat_toUInt8]
    exact Nat.mod_eq_of_lt (hlt.trans (by decide))
  rw [byteChar, hnat, Char.ofNat_toNat]

theorem encode_cons {c : Char} (h : c.utf8Size = 1) (cs : List Char) :
    encode (c :: cs) = c :: encode cs := by
  rw [encode, List.flatMap_cons, String.utf8EncodeChar_eq_singleton h, List.map_append,
    List.map_cons, byteChar_eq h]
  rfl

theorem inRanges_iff {ranges : List (Nat × Nat)} {code : Nat} :
    inRanges ranges code = true ↔ ∃ r ∈ ranges, r.1 ≤ code ∧ code ≤ r.2 := by
  simp [inRanges, List.any_eq_true]

/-- A character is no part of any token. -/
structure IsForeign (c : Char) : Prop where
  /-- It is no part of a word or number. -/
  part : isWordPart c = false
  /-- It is no point. -/
  point : c ≠ '.'
  /-- It is no symbol. -/
  symbol : symbol? c = none

theorem IsForeign.isWordStart {c : Char} (h : IsForeign c) : isWordStart c = false :=
  Bool.eq_false_iff.mpr fun hstart => by
    have hpart := isWordPart_of_isWordStart hstart
    rw [h.part] at hpart
    cases hpart

theorem isForeign_of_wide {c : Char} (h : c.utf8Size ≠ 1) : IsForeign c := by
  refine ⟨Bool.eq_false_iff.mpr fun hpart => h (isSolid_of_isWordPart hpart).size, ?_, ?_⟩
  · rintro rfl
    exact h (by decide)
  · exact Option.eq_none_iff_forall_ne_some.mpr fun t ht => h (isSolid_of_symbol ht).size

/-- The first byte of a character of several bytes is no part of a token either, and is not taken
for white space. -/
theorem encode_cons_wide {c : Char} (h : c.utf8Size ≠ 1) (cs : List Char) :
    ∃ d ds, encode (c :: cs) = d :: ds ∧ IsForeign d ∧ isWhiteSpace d = false := by
  obtain ⟨b, bs, hbytes, hb⟩ : ∃ b bs, String.utf8EncodeChar c = b :: bs ∧ 192 ≤ b.toNat := by
    have hsize : ¬c.val.toNat ≤ 0x7f := fun hle =>
      h (Char.utf8Size_eq_one_iff.mpr (UInt32.le_iff_toNat_le.mpr hle))
    unfold String.utf8EncodeChar
    simp only [if_neg hsize]
    split
    · exact ⟨_, _, rfl, by rw [UInt8.toNat_ofNat']; omega⟩
    · split
      · exact ⟨_, _, rfl, by rw [UInt8.toNat_ofNat']; omega⟩
      · exact ⟨_, _, rfl, by rw [UInt8.toNat_ofNat']; omega⟩
  have hlt := b.toNat_lt
  have hnat : (byteChar b).toNat = b.toNat := by
    rw [byteChar, Char.ofNat, dif_pos (.inl (by omega))]
    rfl
  have hwide : (byteChar b).utf8Size ≠ 1 := fun hsize => by
    have hle : (byteChar b).toNat ≤ 127 :=
      UInt32.le_iff_toNat_le.mp (Char.utf8Size_eq_one_iff.mp hsize)
    omega
  refine ⟨byteChar b, bs.map byteChar ++ encode cs, ?_, isForeign_of_wide hwide, ?_⟩
  · rw [encode, List.flatMap_cons, hbytes, List.map_append]
    rfl
  · rw [Bool.eq_false_iff, ne_eq, isWhiteSpace, inRanges_iff, hnat]
    simp only [whiteSpaceRanges, List.mem_cons, List.not_mem_nil, exists_eq_or_imp, or_false,
      exists_eq_left]
    omega

/-- ASCII characters are white space exactly if they are blanks. -/
theorem isWhiteSpace_eq {c : Char} (h : c.utf8Size = 1) : isWhiteSpace c = isBlank c := by
  have hle : c.toNat ≤ 127 := UInt32.le_iff_toNat_le.mp (Char.utf8Size_eq_one_iff.mp h)
  have hspace : (c == ' ') = decide (c.toNat = 32) := by
    rw [beq_eq_decide, decide_eq_decide]
    refine ⟨fun heq => heq ▸ rfl, fun heq => ?_⟩
    rw [← Char.ofNat_toNat c, heq]
  rw [Bool.eq_iff_iff, isWhiteSpace, inRanges_iff]
  simp only [whiteSpaceRanges, isBlank, hspace, List.mem_cons, List.not_mem_nil, exists_eq_or_imp,
    or_false, exists_eq_left, Bool.or_eq_true, Bool.and_eq_true, decide_eq_true_eq]
  omega

theorem isBlank_of_wide {c : Char} (h : c.utf8Size ≠ 1) : isBlank c = false :=
  Bool.eq_false_iff.mpr fun hblank => h (utf8Size_of_isBlank hblank)

/-! ## Looking at bytes -/

variable {bytes before word behind cs rest : List Char} {i : Nat} {p : Char → Bool}

theorem skip_eq (p : Char → Bool) (bytes : List Char) (i : Nat) :
    skip p bytes i = i + ((bytes.drop i).takeWhile p).length := by
  fun_induction skip p bytes i with
  | case1 i h hp ih =>
    rw [ih, List.drop_eq_getElem_cons h, List.takeWhile_cons_of_pos hp, List.length_cons]
    omega
  | case2 i h hp => rw [List.drop_eq_getElem_cons h, List.takeWhile_cons_of_neg hp]; rfl
  | case3 i h => rw [List.drop_eq_nil_of_le (by omega)]; rfl

/-- Runs of word characters and digits are the same in the bytes. -/
theorem takeWhile_encode (hp : ∀ c, p c = true → isWordPart c = true) (cs : List Char) :
    (encode cs).takeWhile p = cs.takeWhile p := by
  induction cs with
  | nil => rfl
  | cons c cs ih =>
    by_cases hsize : c.utf8Size = 1
    · rw [encode_cons hsize, List.takeWhile_cons, List.takeWhile_cons, ih]
    · have hnot {d : Char} (hd : IsForeign d) : ¬p d = true := fun h => by
        have hpart := hp d h
        rw [hd.part] at hpart
        cases hpart
      obtain ⟨d, ds, hcons, hforeign, -⟩ := encode_cons_wide hsize cs
      rw [hcons, List.takeWhile_cons_of_neg (hnot hforeign),
        List.takeWhile_cons_of_neg (hnot (isForeign_of_wide hsize))]

theorem encode_solid (h : ∀ c ∈ word, c.utf8Size = 1) (rest : List Char) :
    encode (word ++ rest) = word ++ encode rest := by
  induction word with
  | nil => rfl
  | cons c word ih =>
    rw [List.cons_append, encode_cons (h c List.mem_cons_self),
      ih fun d hd => h d (List.mem_cons_of_mem _ hd), List.cons_append]

/-- The bytes from one on are those of some characters of the text. -/
def At (bytes : List Char) (i : Nat) (cs : List Char) : Prop := bytes.drop i = encode cs

namespace At

theorem getElem? (h : At bytes i cs) : bytes[i]? = (encode cs).head? := by
  rw [← h, List.head?_drop]

theorem solid (h : At bytes i (word ++ rest)) (hword : ∀ c ∈ word, c.utf8Size = 1) :
    At bytes (i + word.length) rest := by
  rw [At, ← List.drop_drop, h, encode_solid hword, List.drop_left]

theorem cons {c : Char} (h : At bytes i (c :: rest)) (size : c.utf8Size = 1) :
    At bytes (i + 1) rest :=
  @At.solid bytes [c] rest i h fun _ hd => List.mem_singleton.mp hd ▸ size

theorem skip (h : At bytes i cs) (hp : ∀ c, p c = true → isWordPart c = true) :
    Token.skip p bytes i = i + (cs.takeWhile p).length := by
  rw [skip_eq, h, takeWhile_encode hp]

theorem skip_digits (h : At bytes i cs) :
    Token.skip Char.isDigit bytes i = i + (cs.takeWhile Char.isDigit).length :=
  h.skip fun _ => isWordPart_of_isDigit

theorem isDigitAt (h : At bytes i cs) : Token.isDigitAt bytes i = cs.head?.any Char.isDigit := by
  rw [Token.isDigitAt, h.getElem?]
  cases cs with
  | nil => rfl
  | cons c cs =>
    by_cases hsize : c.utf8Size = 1
    · rw [encode_cons hsize]
      rfl
    · have hnot {d : Char} (hd : IsForeign d) : d.isDigit = false :=
        Bool.eq_false_iff.mpr fun hdigit => by
          have hpart := isWordPart_of_isDigit hdigit
          rw [hd.part] at hpart
          cases hpart
      obtain ⟨d, ds, hcons, hforeign, -⟩ := encode_cons_wide hsize cs
      rw [hcons, List.head?_cons, List.head?_cons, Option.any_some, Option.any_some, hnot hforeign,
        hnot (isForeign_of_wide hsize)]

theorem isPointAt (h : At bytes i cs) : Token.isPointAt bytes i = (fraction? cs).isSome := by
  rw [Token.isPointAt, h.getElem?]
  cases cs with
  | nil => rfl
  | cons c cs =>
    by_cases hpoint : c = '.'
    · subst hpoint
      rw [(h.cons (by decide)).isDigitAt, encode_cons (by decide)]
      cases cs with
      | nil => rfl
      | cons d cs => cases hd : d.isDigit <;> simp [fraction?, hd]
    · have hfirst : (encode (c :: cs)).head? ≠ some '.' := by
        by_cases hsize : c.utf8Size = 1
        · rw [encode_cons hsize]
          exact fun heq => hpoint (Option.some.inj heq)
        · obtain ⟨d, ds, hcons, hforeign, -⟩ := encode_cons_wide hsize cs
          rw [hcons]
          exact fun heq => hforeign.point (Option.some.inj heq)
      have hnone : fraction? (c :: cs) = none := by
        unfold fraction?
        split
        · next heq => exact absurd (List.cons.inj heq).1 hpoint
        · rfl
      rw [hnone, beq_eq_false_iff_ne.mpr hfirst]
      rfl

/-- Whether a number starts at a byte. -/
theorem starts_number (h : At bytes i cs) :
    (Token.isDigitAt bytes i || Token.isPointAt bytes i) = true ↔
      cs.takeWhile Char.isDigit ≠ [] ∨
        (fraction? (cs.drop (cs.takeWhile Char.isDigit).length)).isSome := by
  rw [Bool.or_eq_true, h.isDigitAt, h.isPointAt]
  cases cs with
  | nil => simp [fraction?]
  | cons c cs =>
    cases hc : c.isDigit with
    | true => simp [hc]
    | false => simp [hc]

/-- The number at a byte, and the byte behind it. -/
theorem number (h : At bytes i cs)
    (starts : (Token.isDigitAt bytes i || Token.isPointAt bytes i) = true) :
    ∃ v n, longest? cs = some (.number v, n) ∧ skipNumber bytes i = i + n := by
  rw [longest?_of_digits rfl (h.starts_number.mp starts)]
  obtain ⟨hall, hsplit⟩ := all_takeWhile_append_drop Char.isDigit cs
  have hrest := At.solid (hsplit ▸ h) fun c hc =>
    (isSolid_of_isWordPart (isWordPart_of_isDigit (List.all_eq_true.mp hall c hc))).size
  simp only [skipNumber, h.skip_digits, hrest.isPointAt]
  cases hf : fraction? (cs.drop (cs.takeWhile Char.isDigit).length) with
  | none => exact ⟨_, _, rfl, rfl⟩
  | some f =>
    obtain ⟨-, tail, htail, rfl⟩ := fraction?_eq_some hf
    have hbehind := (htail ▸ hrest : At _ _ _).cons (by decide)
    refine ⟨_, _, rfl, ?_⟩
    rw [if_pos Option.isSome_some, hbehind.skip_digits]
    omega

end At

/-! ## Parts of a text -/

theorem splitAt?_append (before behind : List Char) :
    LogFilter.splitAt? (before ++ behind) (utf8Len before) = some (before, behind) := by
  induction before with
  | nil =>
    cases behind with
    | nil => rfl
    | cons => rfl
  | cons c before ih =>
    obtain ⟨k, hk⟩ := Nat.exists_eq_succ_of_ne_zero (Char.utf8Size_pos c).ne'
    have hlen : utf8Len (c :: before) = utf8Len before + k + 1 := by
      rw [utf8Len_cons, hk]
      rfl
    have hback : utf8Len before + k + 1 - c.utf8Size = utf8Len before := by omega
    rw [List.cons_append, hlen, LogFilter.splitAt?, if_neg (by omega), hback, ih]
    rfl

/-- Parts between the borders of characters are there. -/
theorem slice?_eq {text : String} (h : text.toList = before ++ word ++ behind) {stop : Nat}
    (hstop : stop = utf8Len before + utf8Len word) :
    slice? text (utf8Len before) stop = some word := by
  have hfront : LogFilter.behind text.toList (utf8Len before) = .ok (word ++ behind) := by
    rw [LogFilter.behind, h, List.append_assoc, splitAt?_append]
  have hlen : stop - utf8Len before = utf8Len word := by omega
  have hpart : LogFilter.between text.toList (utf8Len before) stop = .ok word := by
    simp only [LogFilter.between, hfront, bind, Except.bind, hlen, splitAt?_append]
    rfl
  rw [slice?, hpart]

/-! ## Numbers -/

theorem takeWhile_digits (h : word.all Char.isDigit = true) :
    word.takeWhile Char.isDigit = word ∧ word.dropWhile Char.isDigit = [] := by
  rw [List.takeWhile_eq_self_iff, List.dropWhile_eq_nil_iff, and_self]
  exact List.all_eq_true.mp h

theorem span_fraction {digits : List Char} (h : digits.all Char.isDigit = true)
    (behind : List Char) :
    (digits ++ '.' :: behind).span Char.isDigit = (digits, '.' :: behind) := by
  rw [List.span_eq_takeWhile_dropWhile, takeWhile_append_of_all h,
    List.dropWhile_append_of_pos (List.all_eq_true.mp h), List.takeWhile_cons_of_neg (by decide),
    List.dropWhile_cons_of_neg (by decide), List.append_nil]

theorem isUnsigned_of_digits (hne : word ≠ []) (h : word.all Char.isDigit = true) :
    isUnsigned word = true := by
  have hspan : word.span Char.isDigit = (word, []) := by
    rw [List.span_eq_takeWhile_dropWhile, (takeWhile_digits h).1, (takeWhile_digits h).2]
  simp only [isUnsigned, hspan, isExponent, List.append_nil, List.isEmpty_eq_false_iff.mpr hne,
    Bool.not_false, Bool.and_true, Bool.or_true]

theorem isUnsigned_of_fraction {digits : List Char} (h : digits.all Char.isDigit = true)
    (hne : behind ≠ []) (hbehind : behind.all Char.isDigit = true) :
    isUnsigned (digits ++ '.' :: behind) = true := by
  have hspan : behind.span Char.isDigit = (behind, []) := by
    rw [List.span_eq_takeWhile_dropWhile, (takeWhile_digits hbehind).1,
      (takeWhile_digits hbehind).2]
  have hparts : (digits ++ behind).isEmpty = false :=
    List.isEmpty_eq_false_iff.mpr (List.append_ne_nil_of_right_ne_nil _ hne)
  simp only [isUnsigned, span_fraction h, hspan, isExponent, hparts, Bool.not_false, Bool.and_true,
    Bool.or_true]

theorem isNumber_of_digit {c : Char} (h : c.isDigit = true ∨ c = '.') (rest : List Char) :
    isNumber (c :: rest) = isUnsigned (c :: rest) := by
  unfold isNumber
  split
  · next heq =>
    rw [(List.cons.inj heq).1] at h
    exact absurd h (by decide)
  · next heq =>
    rw [(List.cons.inj heq).1] at h
    exact absurd h (by decide)
  · rfl

/-- What spells a number is read as that number. -/
theorem decimal?_eq_some {v : Float} (h : Spells word (.number v)) : decimal? word = some v := by
  cases h with
  | whole hne hall =>
    have hnumber : isNumber word = true := by
      obtain ⟨c, rest, rfl⟩ := List.exists_cons_of_ne_nil hne
      rw [isNumber_of_digit (.inl (List.all_eq_true.mp hall c List.mem_cons_self)),
        isUnsigned_of_digits hne hall]
    simp only [decimal?, if_pos hnumber, (takeWhile_digits hall).1,
      List.drop_eq_nil_of_le (Nat.le_succ _)]
  | @fraction digits behind hall hne hbehind =>
    have hnumber : isNumber (digits ++ '.' :: behind) = true := by
      rw [← isUnsigned_of_fraction hall hne hbehind]
      cases digits with
      | nil => exact isNumber_of_digit (.inr rfl) _
      | cons c digits =>
        exact isNumber_of_digit (.inl (List.all_eq_true.mp hall c List.mem_cons_self)) _
    have hwhole : (digits ++ '.' :: behind).takeWhile Char.isDigit = digits := by
      rw [takeWhile_append_of_all hall, List.takeWhile_cons_of_neg (by decide), List.append_nil]
    have hdrop : (digits ++ '.' :: behind).drop (digits.length + 1) = behind := by
      rw [← List.drop_drop, List.drop_left]
      rfl
    simp only [decimal?, if_pos hnumber, hwhole, hdrop]
  | symbol hsymbol =>
    unfold symbol? at hsymbol
    split at hsymbol <;> cases hsymbol

/-! ## Scanning a text -/

/-- What is seen of a character at its first byte. -/
theorem exists_first (c : Char) (rest : List Char) : ∃ d, (encode (c :: rest)).head? = some d ∧
    isWhiteSpace d = isBlank c ∧ isWordStart d = isWordStart c ∧ symbol? d = symbol? c := by
  by_cases hsize : c.utf8Size = 1
  · exact ⟨c, by rw [encode_cons hsize, List.head?_cons], isWhiteSpace_eq hsize, rfl, rfl⟩
  · obtain ⟨d, ds, hcons, hforeign, hspace⟩ := encode_cons_wide hsize rest
    have hwide := isForeign_of_wide hsize
    refine ⟨d, by rw [hcons, List.head?_cons], ?_, ?_, ?_⟩
    · rw [hspace, isBlank_of_wide hsize]
    · rw [hforeign.isWordStart, hwide.isWordStart]
    · rw [hforeign.symbol, hwide.symbol]

/-- The bytes of a text behind some of its characters are those of the others. -/
theorem at_utf8Len {text : String} (h : text.toList = before ++ cs) :
    At (bytesOf text) (utf8Len before) cs := by
  rw [At, bytesOf_eq, h, encode_append, ← length_encode, List.drop_left]

/-- The part of a text that a token covers is there. -/
theorem slice?_of_longest {text : String} {t : Token} (h : text.toList = before ++ (word ++ rest))
    (hlongest : IsLongest word rest t) :
    slice? text (utf8Len before) (utf8Len before + word.length) = some word := by
  rw [← List.append_assoc] at h
  exact slice?_eq h (by rw [hlongest.utf8Len_eq])

/-- The token at a byte is the longest one that starts with the character there. -/
theorem tokenAt_eq {text : String} {c d : Char} (h : text.toList = before ++ c :: rest)
    (hstart : isWordStart d = isWordStart c) (hsymbol : symbol? d = symbol? c) :
    tokenAt text d (utf8Len before) = some (match longest? (c :: rest) with
      | some (t, n) => .ok ⟨t, utf8Len before, utf8Len before + n⟩
      | none => .error (.unexpected (utf8Len before) c)) := by
  have hat := at_utf8Len h
  unfold tokenAt
  rw [hstart, hsymbol]
  split
  · next hnumber =>
    obtain ⟨v, n, hfound, hskip⟩ := hat.number hnumber
    obtain ⟨word, rest', hsplit, rfl, hspells⟩ := spells_of_longest hfound
    rw [hfound]
    rw [hsplit] at h hfound
    simp only [hskip, slice?_of_longest h (longest?_eq_some.mp hfound), Option.map_some,
      decimal?_eq_some hspells]
  · next hnumber =>
    rw [longest?_of_no_digits (mt hat.starts_number.mpr hnumber)]
    split
    · next hword =>
      obtain ⟨hall, hrest⟩ := all_takeWhile_append_drop isWordPart rest
      have hspells := Spells.word hword hall
      have hsize := (hspells.solid c List.mem_cons_self).size
      have hlen : utf8Len (c :: rest.takeWhile isWordPart)
          = (c :: rest.takeWhile isWordPart).length := hspells.isLongest.utf8Len_eq
      have hskip : skip isWordPart (bytesOf text) (utf8Len before + 1)
          = utf8Len before + (c :: rest.takeWhile isWordPart).length := by
        rw [(hat.cons hsize).skip fun _ => id, List.length_cons]
        omega
      have hparts : text.toList = before ++ (c :: rest.takeWhile isWordPart)
          ++ rest.drop (rest.takeWhile isWordPart).length := by
        rw [h, List.append_assoc, List.cons_append, ← hrest]
      simp only [hskip, slice?_eq hparts (by rw [hlen]), Option.map_some]
    · have hparts : text.toList = before ++ (c :: rest) ++ [] := by rw [h, List.append_nil]
      have hlen : (bytesOf text).length = utf8Len before + utf8Len (c :: rest) := by
        rw [bytesOf_eq, length_encode, h, utf8Len_append]
      cases symbol? c with
      | some t => rfl
      | none =>
        dsimp only
        rw [slice?_eq hparts hlen]
        rfl

/-- What scanning the characters comes to, as the scanner of bytes says it. -/
def refuse : Except (Nat × Char) (List Located) → Except Refusal (List Located) :=
  Except.mapError fun e => .unexpected e.1 e.2

/-- The scanner of bytes finds the tokens of the characters that it has in front of it. -/
theorem scanBytes_eq {text : String} (h : text.toList = before ++ cs) {rounds : Nat}
    (long : cs.length < rounds) :
    scanBytes text rounds (utf8Len before) = some (refuse (scan (utf8Len before) cs)) := by
  induction rounds generalizing before cs with
  | zero => exact absurd long (Nat.not_lt_zero _)
  | succ rounds ih =>
    rw [scanBytes, (at_utf8Len h).getElem?]
    cases cs with
    | nil =>
      rw [scan]
      rfl
    | cons c rest =>
      obtain ⟨d, hhead, hspace, hstart, hsymbol⟩ := exists_first c rest
      rw [hhead]
      dsimp only
      rw [hspace, tokenAt_eq h hstart hsymbol]
      split
      · next hblank =>
        have hlen : utf8Len (before ++ [c]) = utf8Len before + 1 := by
          rw [utf8Len_append, utf8Len_cons, utf8Size_of_isBlank hblank, utf8Len_nil]
        rw [scan_blank hblank, ← hlen]
        exact ih (by rw [h, List.append_assoc, List.singleton_append])
          (by rw [List.length_cons] at long; omega)
      · next hvisible =>
        cases hfound : longest? (c :: rest) with
        | none =>
          rw [scan_none hvisible hfound]
          rfl
        | some found =>
          obtain ⟨word, rest', hsplit, hlength, -⟩ := spells_of_longest hfound
          rw [hsplit] at h long hfound ⊢
          obtain ⟨t, n⟩ := found
          obtain rfl : word.length = n := hlength
          have hlongest := longest?_eq_some.mp hfound
          have hpos := List.length_pos_iff.mpr hlongest.spells.ne_nil
          have hlen : utf8Len before + word.length = utf8Len (before ++ word) := by
            rw [utf8Len_append, hlongest.utf8Len_eq]
          have hparts : text.toList = (before ++ word) ++ rest' := by rw [h, List.append_assoc]
          have hrest := ih hparts (by rw [List.length_append] at long; omega)
          rw [scan_token hlongest]
          dsimp only
          rw [hlen, hrest]
          cases scan (utf8Len (before ++ word)) rest' <;> rfl

/-! ## Bytes outside of tokens -/

/-- Every byte that no token covers is a blank. -/
theorem Cut.outside {position : Nat} {items : List Located} (h : Cut position cs items) :
    ∀ i c, (encode cs)[i]? = some c →
      (∀ l ∈ items, position + i < l.start ∨ l.stop ≤ position + i) → isBlank c = true := by
  induction h with
  | nil => exact fun i c hc => absurd hc (by simp [encode])
  | @blank position d rest items blank _ ih =>
    intro i c hc apart
    rw [encode_cons (utf8Size_of_isBlank blank)] at hc
    cases i with
    | zero =>
      obtain rfl : d = c := by simpa using hc
      exact blank
    | succ i =>
      refine ih i c (by simpa using hc) fun l hl => ?_
      have := apart l hl
      omega
  | @token position word rest t items h _ ih =>
    intro i c hc apart
    have hfirst : position + i < position ∨ position + word.length ≤ position + i :=
      apart _ List.mem_cons_self
    rw [encode_solid fun d hd => (h.spells.solid d hd).size,
      List.getElem?_append_right (by omega)] at hc
    refine ih _ c hc fun l hl => ?_
    have := apart l (List.mem_cons_of_mem _ hl)
    omega

end Token

/-! ## Texts -/

open Token

namespace Tokens

variable {text : String} {tokens : Tokens}

/-- How a text falls apart into tokens. -/
structure IsCutOf (tokens : Tokens) (text : String) : Prop where
  /-- The end lies behind the last byte. -/
  stop : tokens.stop = text.utf8ByteSize
  /-- Every token covers some bytes of the text. -/
  within : ∀ l ∈ tokens.items, l.start < l.stop ∧ l.stop ≤ tokens.stop
  /-- Every token starts behind the one in front of it. -/
  ordered : tokens.items.Pairwise fun l l' => l.stop ≤ l'.start
  /-- Every token starts and stops at the borders of characters. What it covers is cut into this
  token alone, and no longer stretch of the text spells a token. -/
  maximal : ∀ l ∈ tokens.items, ∃ before word behind,
    Covers 0 text.toList l before word behind ∧
    ofString (String.ofList word) = .ok ⟨[⟨l.token, 0, utf8Len word⟩], utf8Len word⟩
  /-- Every byte that no token covers is a blank. -/
  outside : ∀ i c, (bytesOf text)[i]? = some c →
    (∀ l ∈ tokens.items, i < l.start ∨ l.stop ≤ i) → isBlank c = true
  /-- Blanks that are added where no token is cut move what follows, and change no token. -/
  spaced : ∀ before behind blanks, text.toList = before ++ behind →
    (∀ c ∈ blanks, isBlank c = true) →
    (∀ l ∈ tokens.items, utf8Len before ≤ l.start ∨ l.stop ≤ utf8Len before) →
    ∃ moved, moved = spread (utf8Len before) blanks.length tokens.items ∧
      ofString (String.ofList (before ++ (blanks ++ behind)))
        = .ok ⟨moved, tokens.stop + blanks.length⟩ ∧
      moved.map Located.token = tokens.items.map Located.token

theorem ofString_eq_ok :
    ofString text = .ok tokens ↔
      Cut 0 text.toList tokens.items ∧ tokens.stop = text.utf8ByteSize := by
  rw [← scan_eq_ok, ofString]
  cases scan 0 text.toList with
  | error e => simp
  | ok items =>
    constructor
    · intro h
      cases h
      exact ⟨rfl, rfl⟩
    · rintro ⟨h, hstop⟩
      rw [Except.ok.inj h, ← hstop]

theorem utf8Len_toList (text : String) : utf8Len text.toList = text.utf8ByteSize := by
  rw [← String.utf8ByteSize_ofList, String.ofList_toList]

theorem isCutOf (h : ofString text = .ok tokens) : tokens.IsCutOf text := by
  obtain ⟨hcut, hstop⟩ := ofString_eq_ok.mp h
  refine ⟨hstop, fun l hl => ?_, hcut.pairwise, fun l hl => ?_, fun i c hc apart => ?_,
    fun before behind blanks hsplit hblanks apart => ?_⟩
  · have hbounds := hcut.bounds l hl
    rw [utf8Len_toList, Nat.zero_add] at hbounds
    exact ⟨hbounds.2.1, hstop ▸ hbounds.2.2⟩
  · obtain ⟨before, word, behind, hcovers⟩ := hcut.covers l hl
    refine ⟨before, word, behind, hcovers, ofString_eq_ok.mpr ⟨?_, ?_⟩⟩
    · rw [String.toList_ofList]
      exact hcovers.isLongest.spells.cut
    · rw [String.utf8ByteSize_ofList]
  · rw [bytesOf_eq] at hc
    exact hcut.outside i c hc fun l hl => by simpa using apart l hl
  · rw [hsplit] at hcut
    have hmoved := hcut.insert hblanks fun l hl => by simpa using apart l hl
    rw [Nat.zero_add] at hmoved
    refine ⟨_, rfl, ofString_eq_ok.mpr ⟨by rwa [String.toList_ofList], ?_⟩, kinds_spread _ _ _⟩
    rw [hstop, String.utf8ByteSize_ofList, ← utf8Len_toList, hsplit, utf8Len_append, utf8Len_append,
      utf8Len_append, utf8Len_of_blank hblanks, Nat.add_right_comm, Nat.add_assoc]

/-- A text is cut into tokens, or there is a first character that is no blank and that no token
starts with. Scanning the bytes of the text comes to an end with the same result: it finds every
part of the text, and every number can be read. What spells a token is cut into this token alone,
and nothing else is. -/
theorem ofString_cuts (text : String) :
    (∀ tokens, ofString text = .ok tokens → tokens.IsCutOf text) ∧
    (∀ position c, ofString text = .error (position, c) →
      ∃ before behind items, Stuck 0 text.toList position c before behind items) ∧
    scanBytes text (text.utf8ByteSize + 1) 0 = some (match ofString text with
      | .ok tokens => .ok tokens.items
      | .error (position, c) => .error (.unexpected position c)) ∧
    (∀ word t, Spells word t ↔
      ofString (String.ofList word) = .ok ⟨[⟨t, 0, utf8Len word⟩], utf8Len word⟩) := by
  refine ⟨fun _ => isCutOf, fun position c h => ?_, ?_, fun word t => ?_⟩
  · refine scan_eq_error ?_
    unfold ofString at h
    cases hscan : scan 0 text.toList with
    | ok items =>
      rw [hscan] at h
      cases h
    | error e =>
      rw [hscan] at h
      exact congrArg _ (Except.error.inj h)
  · have hlong : text.toList.length < text.utf8ByteSize + 1 := by
      rw [← utf8Len_toList]
      exact Nat.lt_succ_of_le (length_le_utf8Len _)
    have hscan := scanBytes_eq (List.nil_append text.toList).symm hlong
    rw [utf8Len_nil] at hscan
    rw [hscan, ofString]
    cases scan 0 text.toList <;> rfl
  · rw [ofString_eq_ok, String.toList_ofList, String.utf8ByteSize_ofList]
    constructor
    · exact fun h => ⟨h.cut, rfl⟩
    · exact fun h => h.1.spells rfl (Nat.zero_add _).symm

/-- A text with a blank that has to be skipped, and one whose last character has a byte that would
be a blank. -/
theorem ofString_cuts_samples :
    (∃ tokens, ofString " up(.5)" = .ok tokens ∧ tokens.IsCutOf " up(.5)") ∧
    ∃ before behind items, Stuck 0 "up\u0085".toList 2 '\u0085' before behind items := by
  obtain ⟨hcut, -⟩ := ofString_cuts " up(.5)"
  obtain ⟨-, hstuck, -⟩ := ofString_cuts "up\u0085"
  have hfound : ofString " up(.5)" = .ok ⟨[⟨.ident "up", 1, 3⟩, ⟨.lparen, 3, 4⟩,
      ⟨.number 0.5, 4, 6⟩, ⟨.rparen, 6, 7⟩], 7⟩ := by
    decide +kernel
  have hnone : ofString "up\u0085" = .error (2, '\u0085') := by decide +kernel
  exact ⟨⟨_, hfound, hcut _ hfound⟩, hstuck _ _ hnone⟩

end Tokens

end Midframe
