import Midframe.Proofs.Json.Numbers
import Midframe.Proofs.Json.Strings

/-!
# Writing and reading data texts

A data text that is written without any space is read back as it was: whatever its strings stand
for, to whatever depth it nests. The count that bounds the reading never runs out, because two for
every character are enough.
-/

namespace Midframe

theorem skipSpace_cons {c : Char} (h : isJsonSpace c = false) (rest : List Char) :
    skipSpace (c :: rest) = c :: rest := by
  simp [skipSpace, h]

namespace Json

mutual

/-- All numbers are proper, and all strings stand for texts. -/
def IsWritable : Json → Prop
  | null => True
  | bool _ => True
  | number n => n.IsProper
  | string q => ∃ s, q = .ofString s
  | array items => AreWritable items
  | object members => HasWritableMembers members

/-- All items of a list are. -/
def AreWritable : List Json → Prop
  | [] => True
  | item :: rest => IsWritable item ∧ AreWritable rest

/-- All names stand for texts, and all values are. -/
def HasWritableMembers : List (Quoted × Json) → Prop
  | [] => True
  | (name, value) :: rest =>
    (∃ s, name = .ofString s) ∧ IsWritable value ∧ HasWritableMembers rest

end

theorem areWritable_iff {items : List Json} :
    AreWritable items ↔ ∀ item ∈ items, item.IsWritable := by
  induction items with
  | nil => simp [AreWritable]
  | cons item rest ih => rw [AreWritable, ih, List.forall_mem_cons]

theorem isWritable_ofMembers {members : List (String × Json)} :
    (ofMembers members).IsWritable ↔ ∀ m ∈ members, m.2.IsWritable := by
  show HasWritableMembers (members.map fun m => (.ofString m.1, m.2)) ↔ _
  induction members with
  | nil => simp [HasWritableMembers]
  | cons m rest ih =>
    rw [List.map_cons, HasWritableMembers, ih, List.forall_mem_cons]
    exact ⟨And.right, fun h => ⟨⟨m.1, rfl⟩, h⟩⟩

/-! ## First characters -/

theorem number_head {n : Numeral} (h : n.IsProper) :
    ∃ c rest, n.chars = c :: rest ∧ (c = '-' ∨ c.isDigit = true) := by
  obtain ⟨c, rest, hwhole⟩ := List.exists_cons_of_ne_nil h.whole.nonempty
  have hc : c.isDigit = true := h.whole.areDigits c (by rw [hwhole]; exact List.mem_cons_self)
  cases hn : n.negative with
  | true => exact ⟨'-', _, by rw [Numeral.chars, hn]; rfl, .inl rfl⟩
  | false => exact ⟨c, _, by rw [Numeral.chars, hn, hwhole]; rfl, .inr hc⟩

theorem not_space_of_isDigit {c : Char} (h : c.isDigit = true) : isJsonSpace c = false := by
  rw [Bool.eq_false_iff]
  intro hspace
  simp only [isJsonSpace, Bool.or_eq_true, beq_iff_eq] at hspace
  rcases hspace with ((rfl | rfl) | rfl) | rfl <;> cases h

/-- The first character of a value is no space and closes no list. -/
theorem compactChars_head {j : Json} (h : j.IsWritable) :
    ∃ c rest, j.compactChars = c :: rest ∧ isJsonSpace c = false ∧ c ≠ ']' := by
  cases j with
  | null => exact ⟨'n', _, rfl, rfl, by decide⟩
  | bool b =>
    cases b
    · exact ⟨'f', _, rfl, rfl, by decide⟩
    · exact ⟨'t', _, rfl, rfl, by decide⟩
  | number n =>
    obtain ⟨c, rest, hchars, hc⟩ := number_head h
    refine ⟨c, rest, by rw [compactChars, hchars], ?_⟩
    rcases hc with rfl | hc
    · exact ⟨by decide, by decide⟩
    · refine ⟨not_space_of_isDigit hc, ?_⟩
      rintro rfl
      cases hc
  | string q => exact ⟨'"', _, rfl, rfl, by decide⟩
  | array items => exact ⟨'[', _, rfl, rfl, by decide⟩
  | object members => exact ⟨'\x7b', _, rfl, rfl, by decide⟩

/-! ## Values -/

open Numeral (EndsNumber)

variable {rest : List Char}

theorem readValue_number {n : Numeral} (h : n.IsProper) (hrest : EndsNumber rest) (fuel : Nat) :
    readValue (fuel + 1) (n.chars ++ rest) = some (number n, rest) := by
  obtain ⟨c, tail, hchars, hc⟩ := number_head h
  have hread := Numeral.read_append h hrest
  have hspace : isJsonSpace c = false := by
    rcases hc with rfl | hc
    · rfl
    · exact not_space_of_isDigit hc
  have hne (d : Char) (hd : d.isDigit = false) (hminus : d ≠ '-') : c ≠ d := by
    rintro rfl
    rcases hc with rfl | hc
    · exact hminus rfl
    · rw [hd] at hc
      cases hc
  rw [hchars, List.cons_append] at hread ⊢
  rw [readValue, skipSpace_cons hspace]
  split
  · next heq => exact absurd (List.cons.inj heq).1 (hne _ rfl (by decide))
  · next heq => exact absurd (List.cons.inj heq).1 (hne _ rfl (by decide))
  · next heq => exact absurd (List.cons.inj heq).1 (hne _ rfl (by decide))
  · next heq => exact absurd (List.cons.inj heq).1 (hne _ rfl (by decide))
  · next heq => exact absurd (List.cons.inj heq).1 (hne _ rfl (by decide))
  · next heq => exact absurd (List.cons.inj heq).1 (hne _ rfl (by decide))
  · rw [hread]
    rfl

theorem readValue_string (s : String) (fuel : Nat) :
    readValue (fuel + 1) ((Quoted.ofString s).chars ++ rest)
      = some (string (.ofString s), rest) := by
  have hchars : (Quoted.ofString s).chars ++ rest
      = '"' :: ((Quoted.ofString s).body ++ '"' :: rest) := by simp [Quoted.chars]
  rw [hchars, readValue, skipSpace_cons (by decide)]
  simp only [Quoted.readBody_ofString, Option.map_some]

theorem endsNumber_cons {c : Char} (h : c = ',' ∨ c = ']' ∨ c = '\x7d') :
    EndsNumber (c :: rest) := by
  rintro d hd
  cases hd
  rcases h with rfl | rfl | rfl <;> decide

theorem compactItems_cons (item : Json) {items : List Json} (h : items ≠ []) :
    compactItems (item :: items) = item.compactChars ++ ',' :: compactItems items := by
  cases items with
  | nil => exact absurd rfl h
  | cons next items => rw [compactItems]; exact h

/-- A member of an object, and what closes the object or goes on with it. -/
def memberChars (name : Quoted) (value : Json) (rest : List Char) : List Char :=
  '"' :: (name.body ++ '"' :: ':' :: (value.compactChars ++ rest))

theorem compactMembers_singleton (name : Quoted) (value : Json) :
    compactMembers [(name, value)] = memberChars name value ['\x7d'] := by
  simp [compactMembers, memberChars, Quoted.chars]

theorem compactMembers_cons (name : Quoted) (value : Json) {members : List (Quoted × Json)}
    (h : members ≠ []) : compactMembers ((name, value) :: members) =
      memberChars name value (',' :: compactMembers members) := by
  cases members with
  | nil => exact absurd rfl h
  | cons next members => simp [compactMembers, memberChars, Quoted.chars]

theorem memberChars_append (name : Quoted) (value : Json) (chars rest : List Char) :
    memberChars name value chars ++ rest = memberChars name value (chars ++ rest) := by
  simp [memberChars]

theorem length_memberChars (name : Quoted) (value : Json) (chars : List Char) :
    value.compactChars.length + chars.length + 3 ≤ (memberChars name value chars).length := by
  simp only [memberChars, List.length_cons, List.length_append]
  omega

theorem compactItems_head {item : Json} (h : item.IsWritable) (items : List Json) :
    ∃ c rest, compactItems (item :: items) = c :: rest ∧ isJsonSpace c = false ∧ c ≠ ']' := by
  obtain ⟨c, rest, hchars, hc⟩ := compactChars_head h
  cases items with
  | nil => exact ⟨c, _, by rw [compactItems, hchars, List.cons_append], hc⟩
  | cons next items =>
    exact ⟨c, _, by rw [compactItems_cons item (List.cons_ne_nil next items), hchars,
      List.cons_append], hc⟩

/-! ### Lists and objects, from what is read of their parts -/

theorem readValue_array {item : Json} (h : item.IsWritable) {items : List Json} {fuel : Nat}
    (hitems : readItems fuel (compactItems (item :: items) ++ rest) = some (item :: items, rest)) :
    readValue (fuel + 1) ((array (item :: items)).compactChars ++ rest)
      = some (array (item :: items), rest) := by
  obtain ⟨c, tail, hchars, hspace, hc⟩ := compactItems_head h items
  rw [hchars, List.cons_append] at hitems
  rw [compactChars, hchars, List.cons_append, List.cons_append, readValue,
    skipSpace_cons (by decide)]
  simp only [skipSpace_cons hspace]
  split
  · next heq => exact absurd (List.cons.inj heq).1 hc
  · rw [hitems]
    rfl

theorem readItems_singleton {item : Json} {fuel : Nat}
    (hitem : readValue fuel (item.compactChars ++ ']' :: rest) = some (item, ']' :: rest)) :
    readItems (fuel + 1) (compactItems [item] ++ rest) = some ([item], rest) := by
  have hclose : isJsonSpace ']' = false := rfl
  rw [compactItems, List.append_assoc, List.singleton_append, readItems, hitem]
  simp only [Option.bind_eq_bind, Option.bind_some, skipSpace_cons hclose]

theorem readItems_cons {item : Json} {items : List Json} (hne : items ≠ []) {fuel : Nat}
    (hitem : readValue fuel (item.compactChars ++ ',' :: (compactItems items ++ rest))
      = some (item, ',' :: (compactItems items ++ rest)))
    (hitems : readItems fuel (compactItems items ++ rest) = some (items, rest)) :
    readItems (fuel + 1) (compactItems (item :: items) ++ rest) = some (item :: items, rest) := by
  have hcomma : isJsonSpace ',' = false := rfl
  rw [compactItems_cons item hne, List.append_assoc, List.cons_append, readItems, hitem]
  simp only [Option.bind_eq_bind, Option.bind_some, skipSpace_cons hcomma, hitems, Option.map_some]

theorem readValue_object {member : Quoted × Json} {members : List (Quoted × Json)} {fuel : Nat}
    (hmembers : readMembers fuel (compactMembers (member :: members) ++ rest)
      = some (member :: members, rest)) :
    readValue (fuel + 1) ((object (member :: members)).compactChars ++ rest)
      = some (object (member :: members), rest) := by
  obtain ⟨tail, hchars⟩ : ∃ tail, compactMembers (member :: members) = '"' :: tail := by
    obtain ⟨name, value⟩ := member
    cases members with
    | nil => exact ⟨_, compactMembers_singleton name value⟩
    | cons next members =>
      exact ⟨_, compactMembers_cons name value (List.cons_ne_nil next members)⟩
  have hquote : isJsonSpace '"' = false := rfl
  rw [hchars, List.cons_append] at hmembers
  rw [compactChars, hchars, List.cons_append, List.cons_append, readValue,
    skipSpace_cons (by decide)]
  simp only [skipSpace_cons hquote]
  show (readMembers fuel ('"' :: (tail ++ rest))).map _ = _
  rw [hmembers]
  rfl

theorem readMembers_singleton (s : String) {value : Json} {fuel : Nat}
    (hvalue : readValue fuel (value.compactChars ++ '\x7d' :: rest)
      = some (value, '\x7d' :: rest)) :
    readMembers (fuel + 1) (memberChars (.ofString s) value ('\x7d' :: rest))
      = some ([(.ofString s, value)], rest) := by
  have hquote : isJsonSpace '"' = false := rfl
  have hcolon : isJsonSpace ':' = false := rfl
  have hclose : isJsonSpace '\x7d' = false := rfl
  rw [memberChars, readMembers, skipSpace_cons hquote]
  simp only [Quoted.readBody_ofString, Option.bind_eq_bind, Option.bind_some,
    skipSpace_cons hcolon, hvalue, skipSpace_cons hclose]

theorem readMembers_cons (s : String) {value : Json} {members : List (Quoted × Json)} {fuel : Nat}
    (hvalue : readValue fuel (value.compactChars ++ ',' :: (compactMembers members ++ rest))
      = some (value, ',' :: (compactMembers members ++ rest)))
    (hmembers : readMembers fuel (compactMembers members ++ rest) = some (members, rest)) :
    readMembers (fuel + 1)
        (memberChars (.ofString s) value (',' :: (compactMembers members ++ rest)))
      = some ((.ofString s, value) :: members, rest) := by
  have hquote : isJsonSpace '"' = false := rfl
  have hcolon : isJsonSpace ':' = false := rfl
  have hcomma : isJsonSpace ',' = false := rfl
  rw [memberChars, readMembers, skipSpace_cons hquote]
  simp only [Quoted.readBody_ofString, Option.bind_eq_bind, Option.bind_some,
    skipSpace_cons hcolon, hvalue, skipSpace_cons hcomma, hmembers, Option.map_some]

mutual

theorem readValue_compact : (j : Json) → j.IsWritable → {fuel : Nat} → {rest : List Char} →
    2 * j.compactChars.length ≤ fuel → EndsNumber rest →
    readValue fuel (j.compactChars ++ rest) = some (j, rest)
  | j, h, 0, rest, hfuel, _ => by
    obtain ⟨c, tail, hchars, -⟩ := compactChars_head h
    rw [hchars] at hfuel
    exact absurd hfuel (by simp)
  | null, _, fuel + 1, rest, _, _ => rfl
  | bool true, _, fuel + 1, rest, _, _ => rfl
  | bool false, _, fuel + 1, rest, _, _ => rfl
  | number n, h, fuel + 1, rest, _, hrest => readValue_number h hrest fuel
  | string q, h, fuel + 1, rest, _, _ => by
    obtain ⟨s, rfl⟩ := h
    exact readValue_string s fuel
  | array [], _, fuel + 1, rest, _, _ => rfl
  | array (item :: items), h, fuel + 1, rest, hfuel, _ => by
    rw [compactChars, List.length_cons] at hfuel
    exact readValue_array h.1 (readItems_compact (item :: items) h (by omega)
      (List.cons_ne_nil item items))
  | object [], _, fuel + 1, rest, _, _ => rfl
  | object (member :: members), h, fuel + 1, rest, hfuel, _ => by
    rw [compactChars, List.length_cons] at hfuel
    exact readValue_object (readMembers_compact (member :: members) h (by omega)
      (List.cons_ne_nil member members))

theorem readItems_compact : (items : List Json) → AreWritable items → {fuel : Nat} →
    {rest : List Char} → 2 * (compactItems items).length ≤ fuel → items ≠ [] →
    readItems fuel (compactItems items ++ rest) = some (items, rest)
  | [], _, _, _, _, hne => absurd rfl hne
  | [item], h, fuel, rest, hfuel, _ => by
    rw [compactItems, List.length_append, List.length_singleton] at hfuel
    obtain ⟨fuel, rfl⟩ := Nat.exists_eq_succ_of_ne_zero (show fuel ≠ 0 by omega)
    exact readItems_singleton
      (readValue_compact item h.1 (by omega) (endsNumber_cons (.inr (.inl rfl))))
  | item :: next :: items, h, fuel, rest, hfuel, _ => by
    rw [compactItems_cons item (List.cons_ne_nil next items), List.length_append,
      List.length_cons] at hfuel
    obtain ⟨fuel, rfl⟩ := Nat.exists_eq_succ_of_ne_zero (show fuel ≠ 0 by omega)
    exact readItems_cons (List.cons_ne_nil next items)
      (readValue_compact item h.1 (by omega) (endsNumber_cons (.inl rfl)))
      (readItems_compact (next :: items) h.2 (by omega) (List.cons_ne_nil next items))

theorem readMembers_compact : (members : List (Quoted × Json)) → HasWritableMembers members →
    {fuel : Nat} → {rest : List Char} → 2 * (compactMembers members).length ≤ fuel →
    members ≠ [] → readMembers fuel (compactMembers members ++ rest) = some (members, rest)
  | [], _, _, _, _, hne => absurd rfl hne
  | [(name, value)], h, fuel, rest, hfuel, _ => by
    obtain ⟨⟨s, rfl⟩, hvalue, -⟩ := h
    rw [compactMembers_singleton] at hfuel ⊢
    have hlength := length_memberChars (.ofString s) value ['\x7d']
    obtain ⟨fuel, rfl⟩ := Nat.exists_eq_succ_of_ne_zero (show fuel ≠ 0 by omega)
    rw [memberChars_append]
    exact readMembers_singleton s
      (readValue_compact value hvalue (by omega) (endsNumber_cons (.inr (.inr rfl))))
  | (name, value) :: next :: members, h, fuel, rest, hfuel, _ => by
    obtain ⟨⟨s, rfl⟩, hvalue, hmembers⟩ := h
    have hne := List.cons_ne_nil next members
    rw [compactMembers_cons _ _ hne] at hfuel ⊢
    have hlength := length_memberChars (.ofString s) value (',' :: compactMembers (next :: members))
    rw [List.length_cons] at hlength
    obtain ⟨fuel, rfl⟩ := Nat.exists_eq_succ_of_ne_zero (show fuel ≠ 0 by omega)
    rw [memberChars_append]
    exact readMembers_cons s
      (readValue_compact value hvalue (by omega) (endsNumber_cons (.inl rfl)))
      (readMembers_compact (next :: members) hmembers (by omega) hne)

end

/-- A text without any space is read back. -/
theorem read?_compact {j : Json} (h : j.IsWritable) : read? j.compact = some j := by
  have hend : EndsNumber [] := fun c hc => nomatch hc
  have hread := readValue_compact j h
    (show 2 * j.compactChars.length ≤ readingFuel j.compactChars.length from Nat.le_add_right _ 2)
    hend
  rw [List.append_nil] at hread
  rw [read?, compact, String.toList_ofList, readChars?, hread]
  rfl

end Json

end Midframe
