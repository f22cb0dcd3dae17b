import Midframe.Proofs.Spec.Spelling

/-!
# How a text is cut

A text is cut into tokens where the blanks in it are skipped and the longest token is taken wherever
there is none. This module says so by a relation that has one rule for each, and reads off where the
tokens lie. Blanks that are added where no token is cut move the tokens behind them and change no
token.
-/

namespace Midframe

open String (utf8Len utf8Len_cons utf8Len_append utf8Len_eq_zero)

/-- A token some bytes further on. -/
def Located.shift (k : Nat) (l : Located) : Located := ⟨l.token, l.start + k, l.stop + k⟩

namespace Token

/-- Characters from a byte on are cut into tokens. -/
inductive Cut : Nat → List Char → List Located → Prop
  /-- Nothing is left. -/
  | nil {position : Nat} : Cut position [] []
  /-- A blank is skipped. -/
  | blank {position : Nat} {c : Char} {rest : List Char} {items : List Located} :
    isBlank c = true → Cut (position + 1) rest items → Cut position (c :: rest) items
  /-- The longest token is taken. -/
  | token {position : Nat} {word rest : List Char} {t : Token} {items : List Located} :
    IsLongest word rest t → Cut (position + word.length) rest items →
    Cut position (word ++ rest) (⟨t, position, position + word.length⟩ :: items)

variable {position : Nat} {cs word rest before behind blanks : List Char} {items : List Located}
  {t : Token} {l : Located}

/-! ## Bytes of tokens -/

theorem utf8Len_of_solid (h : ∀ c ∈ cs, IsSolid c) : utf8Len cs = cs.length := by
  induction cs with
  | nil => rfl
  | cons c cs ih =>
    rw [utf8Len_cons, List.length_cons, ih fun d hd => h d (List.mem_cons_of_mem _ hd),
      (h c List.mem_cons_self).size]

theorem IsLongest.utf8Len_eq (h : IsLongest word rest t) : utf8Len word = word.length :=
  utf8Len_of_solid h.spells.solid

theorem utf8Size_of_isBlank {c : Char} (h : isBlank c = true) : c.utf8Size = 1 := by
  rw [isBlank, Bool.or_eq_true, beq_iff_eq, Bool.and_eq_true, decide_eq_true_eq,
    decide_eq_true_eq] at h
  refine Char.utf8Size_eq_one_iff.mpr (UInt32.le_iff_toNat_le.mpr ?_)
  rcases h with rfl | ⟨-, h⟩
  · decide
  · exact h.trans (by decide)

theorem utf8Len_of_blank (h : ∀ c ∈ cs, isBlank c = true) : utf8Len cs = cs.length := by
  induction cs with
  | nil => rfl
  | cons c cs ih =>
    rw [utf8Len_cons, List.length_cons, ih fun d hd => h d (List.mem_cons_of_mem _ hd),
      utf8Size_of_isBlank (h c List.mem_cons_self)]

/-! ## Scanning -/

theorem scan_blank {c : Char} (blank : isBlank c = true) :
    scan position (c :: rest) = scan (position + 1) rest := by
  rw [scan, if_pos blank]

theorem scan_none {c : Char} (visible : ¬isBlank c = true) (h : longest? (c :: rest) = none) :
    scan position (c :: rest) = .error (position, c) := by
  rw [scan, if_neg visible]
  split
  · rfl
  · next hsome =>
    rw [h] at hsome
    cases hsome

theorem IsLongest.exists_cons (h : IsLongest word rest t) :
    ∃ c tail, word ++ rest = c :: tail ∧ isBlank c = false := by
  cases word with
  | nil => exact absurd rfl h.spells.ne_nil
  | cons c cs => exact ⟨c, cs ++ rest, rfl, (h.spells.solid c List.mem_cons_self).visible⟩

theorem scan_token (h : IsLongest word rest t) : scan position (word ++ rest)
    = (scan (position + word.length) rest).map (⟨t, position, position + word.length⟩ :: ·) := by
  have hfound := longest?_eq_some.mpr h
  obtain ⟨c, tail, hcons, hvisible⟩ := h.exists_cons
  have hdrop : (c :: tail).drop word.length = rest := by rw [← hcons, List.drop_left]
  rw [hcons] at hfound ⊢
  rw [scan, if_neg (by simp [hvisible])]
  split
  · next hnone =>
    rw [hfound] at hnone
    cases hnone
  · next hsome =>
    rw [hfound] at hsome
    cases hsome
    rw [hdrop]
    cases scan (position + word.length) rest <;> rfl

/-- Scanning cuts a text, if it can be cut. -/
theorem scan_eq_ok : scan position cs = .ok items ↔ Cut position cs items := by
  constructor
  · intro h
    fun_induction scan position cs generalizing items with
    | case1 =>
      cases h
      exact .nil
    | case2 _ _ _ blank ih => exact .blank blank (ih h)
    | case3 => cases h
    | case4 position c rest _ t n found items' hscan ih =>
      cases h
      obtain ⟨word, rest', hsplit, rfl, -⟩ := spells_of_longest found
      rw [hsplit, List.drop_left] at ih hscan
      rw [hsplit] at found ⊢
      exact .token (longest?_eq_some.mp found) (ih hscan)
    | case5 => cases h
  · intro h
    induction h with
    | nil => rw [scan]
    | blank blank _ ih => rw [scan_blank blank, ih]
    | token h _ ih =>
      rw [scan_token h, ih]
      rfl

/-- A token stays the longest one where less follows. -/
theorem IsLongest.of_append {more : List Char} (h : IsLongest word (rest ++ more) t) :
    IsLongest word rest t := by
  refine ⟨h.spells, fun v u hv => h.longest v u ?_⟩
  rw [← List.append_assoc]
  exact List.prefix_append_of_prefix hv

/-- Why a text cannot be cut: at some byte there is a character that is no blank, and no token
starts with it. Everything in front of it is cut. -/
structure Stuck (position : Nat) (cs : List Char) (stop : Nat) (c : Char)
    (before behind : List Char) (items : List Located) : Prop where
  /-- The character is in the text. -/
  split : cs = before ++ c :: behind
  /-- The byte at which it starts. -/
  stop : stop = position + utf8Len before
  /-- The tokens in front of it. -/
  cut : Cut position before items
  /-- It is no blank. -/
  visible : isBlank c = false
  /-- No token starts with it. -/
  starts : ∀ word t, word <+: c :: behind → ¬Spells word t

theorem scan_eq_error {stop : Nat} {c : Char} (h : scan position cs = .error (stop, c)) :
    ∃ before behind items, Stuck position cs stop c before behind items := by
  fun_induction scan position cs with
  | case1 => cases h
  | case2 position d rest blank ih =>
    obtain ⟨before, behind, items, rfl, rfl, hcut, hvisible, hstarts⟩ := ih h
    refine ⟨d :: before, behind, items, rfl, ?_, .blank blank hcut, hvisible, hstarts⟩
    rw [utf8Len_cons, utf8Size_of_isBlank blank, Nat.add_right_comm, Nat.add_assoc]
  | case3 position d rest blank hnone =>
    cases h
    exact ⟨[], rest, [], rfl, rfl, .nil, by simpa using blank, longest?_eq_none.mp hnone⟩
  | case4 => cases h
  | case5 position d rest _ t n found e hscan ih =>
    cases h
    obtain ⟨word, rest', hsplit, rfl, -⟩ := spells_of_longest found
    rw [hsplit, List.drop_left] at ih hscan
    rw [hsplit] at found ⊢
    have hlongest := longest?_eq_some.mp found
    obtain ⟨before, behind, items, rfl, rfl, hcut, hvisible, hstarts⟩ := ih hscan
    refine ⟨word ++ before, behind, _, by simp, ?_, .token hlongest.of_append hcut, hvisible,
      hstarts⟩
    rw [utf8Len_append, hlongest.utf8Len_eq, Nat.add_assoc]

/-! ## Where the tokens lie -/

/-- Every token lies within the text, and is not empty. -/
theorem Cut.bounds (h : Cut position cs items) :
    ∀ l ∈ items, position ≤ l.start ∧ l.start < l.stop ∧ l.stop ≤ position + utf8Len cs := by
  induction h with
  | nil => exact nofun
  | @blank position c rest items blank _ ih =>
    intro l hl
    have := ih l hl
    rw [utf8Len_cons, utf8Size_of_isBlank blank]
    omega
  | @token position word rest t items h _ ih =>
    have hpos := List.length_pos_iff.mpr h.spells.ne_nil
    rw [utf8Len_append, h.utf8Len_eq]
    refine List.forall_mem_cons.mpr ⟨⟨Nat.le_refl _, ?_, ?_⟩, fun l hl => ?_⟩
    · show position < position + word.length
      omega
    · show position + word.length ≤ _
      omega
    · have := ih l hl
      omega

/-- Tokens follow each other, and none reaches into the next one. -/
theorem Cut.pairwise (h : Cut position cs items) :
    items.Pairwise fun l l' => l.stop ≤ l'.start := by
  induction h with
  | nil => exact .nil
  | blank _ _ ih => exact ih
  | token _ hrest ih => exact .cons (fun l hl => (hrest.bounds l hl).1) ih

/-- A token covers a stretch that is the longest one to spell a token where it starts. -/
structure Covers (position : Nat) (cs : List Char) (l : Located) (before word behind : List Char) :
    Prop where
  /-- The stretch is a part of the text. -/
  split : cs = before ++ word ++ behind
  /-- It starts where the token does. -/
  start : l.start = position + utf8Len before
  /-- It stops where the token does. -/
  stop : l.stop = position + utf8Len (before ++ word)
  /-- It spells the token, and no longer stretch spells any. -/
  isLongest : IsLongest word behind l.token

theorem Cut.covers (h : Cut position cs items) :
    ∀ l ∈ items, ∃ before word behind, Covers position cs l before word behind := by
  induction h with
  | nil => exact nofun
  | @blank position c rest items blank _ ih =>
    intro l hl
    obtain ⟨before, word, behind, rfl, hstart, hstop, hlongest⟩ := ih l hl
    refine ⟨c :: before, word, behind, rfl, ?_, ?_, hlongest⟩
    · rw [hstart, utf8Len_cons, utf8Size_of_isBlank blank, Nat.add_right_comm, Nat.add_assoc]
    · rw [hstop, List.cons_append, utf8Len_cons, utf8Size_of_isBlank blank, Nat.add_right_comm,
        Nat.add_assoc]
  | @token position word rest t items h _ ih =>
    refine List.forall_mem_cons.mpr ⟨⟨[], word, rest, rfl, rfl, ?_, h⟩, fun l hl => ?_⟩
    · rw [List.nil_append, h.utf8Len_eq]
    · obtain ⟨before, word', behind, rfl, hstart, hstop, hlongest⟩ := ih l hl
      refine ⟨word ++ before, word', behind, by simp, ?_, ?_, hlongest⟩
      · rw [hstart, utf8Len_append, h.utf8Len_eq, Nat.add_assoc]
      · rw [hstop, List.append_assoc, utf8Len_append word, h.utf8Len_eq, Nat.add_assoc]

/-- What spells a token is cut into that token alone. -/
theorem Spells.cut (h : Spells word t) :
    Cut 0 word [⟨t, 0, utf8Len word⟩] := by
  have hcut : Cut 0 (word ++ []) _ := Cut.token h.isLongest Cut.nil
  rwa [List.append_nil, Nat.zero_add, ← h.isLongest.utf8Len_eq] at hcut

/-- A text that its first token covers spells it. -/
theorem Cut.spells (h : Cut position cs (l :: items)) (start : l.start = position)
    (stop : l.stop = position + utf8Len cs) : Spells cs l.token := by
  cases h with
  | blank _ hrest =>
    have := (hrest.bounds l List.mem_cons_self).1
    omega
  | @token _ word rest t _ h _ =>
    have hrest : utf8Len rest = 0 := by
      have hstop : position + word.length = position + utf8Len (word ++ rest) := stop
      rw [utf8Len_append, h.utf8Len_eq] at hstop
      omega
    rw [utf8Len_eq_zero.mp hrest, List.append_nil]
    exact h.spells

/-! ## Added blanks -/

theorem Cut.shift (h : Cut position cs items) (k : Nat) :
    Cut (position + k) cs (items.map (Located.shift k)) := by
  induction h with
  | nil => exact .nil
  | blank blank _ ih =>
    rw [Nat.add_right_comm] at ih
    exact .blank blank ih
  | token h _ ih =>
    rw [Nat.add_right_comm] at ih
    rw [List.map_cons, Located.shift, Nat.add_right_comm]
    exact .token h ih

theorem Cut.blanks_append (hblanks : ∀ c ∈ blanks, isBlank c = true)
    (h : Cut (position + blanks.length) cs items) : Cut position (blanks ++ cs) items := by
  induction blanks generalizing position with
  | nil => exact h
  | cons c blanks ih =>
    refine .blank (hblanks c List.mem_cons_self)
      (ih (fun d hd => hblanks d (List.mem_cons_of_mem _ hd)) ?_)
    rwa [List.length_cons, Nat.add_comm blanks.length, ← Nat.add_assoc] at h

/-- Blanks make no token longer. -/
theorem IsLongest.insert (h : IsLongest word (before ++ behind) t)
    (hblanks : ∀ c ∈ blanks, isBlank c = true) :
    IsLongest word (before ++ (blanks ++ behind)) t := by
  refine ⟨h.spells, fun v u hv hspells => ?_⟩
  cases blanks with
  | nil => exact h.longest v u hv hspells
  | cons c blanks =>
    obtain ⟨tail, htail⟩ := hv
    have hsplit : v ++ tail = (word ++ before) ++ c :: (blanks ++ behind) := by simp [htail]
    refine h.longest v u ?_ hspells
    rw [← List.append_assoc]
    rcases List.append_eq_append_iff.mp hsplit with ⟨more, hmore, -⟩ | ⟨more, rfl, hmore⟩
    · exact (List.prefix_append_of_prefix ⟨more, hmore.symm⟩)
    · cases more with
      | nil => exact ⟨behind, by rw [List.append_nil]⟩
      | cons d more =>
        -- A stretch that reaches the blanks contains the first of them.
        obtain rfl : c = d := (List.cons.inj hmore).1
        have hvisible := (hspells.solid c (by simp)).visible
        rw [hblanks c List.mem_cons_self] at hvisible
        cases hvisible

/-- The tokens of a text with blanks added at a byte. -/
def spread (cut k : Nat) (items : List Located) : List Located :=
  items.map fun l => if cut ≤ l.start then l.shift k else l

theorem kinds_spread (cut k : Nat) (items : List Located) :
    (spread cut k items).map Located.token = items.map Located.token := by
  rw [spread, List.map_map]
  refine List.map_congr_left fun l _ => ?_
  show (if cut ≤ l.start then l.shift k else l).token = l.token
  split <;> rfl

theorem Cut.insert_front (h : Cut position behind items)
    (hblanks : ∀ c ∈ blanks, isBlank c = true) :
    Cut position (blanks ++ behind) (spread position blanks.length items) := by
  have hspread : spread position blanks.length items = items.map (Located.shift blanks.length) :=
    List.map_congr_left fun l hl => if_pos (h.bounds l hl).1
  rw [hspread]
  exact Cut.blanks_append hblanks (h.shift _)

/-- What ends behind the first token contains it. -/
theorem IsLongest.exists_middle (h : IsLongest word rest t)
    (split : before ++ behind = word ++ rest) (long : word.length ≤ utf8Len before) :
    ∃ middle, before = word ++ middle ∧ rest = middle ++ behind := by
  rcases List.append_eq_append_iff.mp split with ⟨more, hword, hbehind⟩ | hmiddle
  · have hmore : utf8Len more = 0 := by
      have hlen := h.utf8Len_eq
      rw [hword, utf8Len_append, ← hword] at hlen
      omega
    rw [utf8Len_eq_zero.mp hmore] at hword hbehind
    exact ⟨[], by simp [hword], hbehind.symm⟩
  · exact hmiddle

/-- Blanks that are added where no token is cut move what follows. -/
theorem Cut.insert (h : Cut position (before ++ behind) items)
    (hblanks : ∀ c ∈ blanks, isBlank c = true)
    (apart : ∀ l ∈ items,
      position + utf8Len before ≤ l.start ∨ l.stop ≤ position + utf8Len before) :
    Cut position (before ++ (blanks ++ behind))
      (spread (position + utf8Len before) blanks.length items) := by
  generalize hcs : before ++ behind = cs at h
  induction h generalizing before with
  | nil =>
    obtain ⟨rfl, rfl⟩ := List.append_eq_nil_iff.mp hcs
    exact Cut.nil.insert_front hblanks
  | @blank position c rest items blank hrest ih =>
    cases before with
    | nil =>
      obtain rfl : behind = c :: rest := hcs
      exact (Cut.blank blank hrest).insert_front hblanks
    | cons d before =>
      obtain ⟨rfl, hrest'⟩ := List.cons.inj hcs
      have hlen : position + utf8Len (d :: before) = position + 1 + utf8Len before := by
        rw [utf8Len_cons, utf8Size_of_isBlank blank]
        omega
      rw [hlen] at apart ⊢
      exact .blank blank (ih apart hrest')
  | @token position word rest t items hlongest hrest ih =>
    rcases Nat.eq_zero_or_pos (utf8Len before) with hzero | hpos
    · obtain rfl := utf8Len_eq_zero.mp hzero
      obtain rfl : behind = word ++ rest := hcs
      exact (Cut.token hlongest hrest).insert_front hblanks
    · have hlong : word.length ≤ utf8Len before := by
        have hfirst : position + utf8Len before ≤ position ∨
            position + word.length ≤ position + utf8Len before := apart _ List.mem_cons_self
        omega
      obtain ⟨middle, rfl, rfl⟩ := hlongest.exists_middle hcs hlong
      have hlen : position + utf8Len (word ++ middle)
          = position + word.length + utf8Len middle := by
        rw [utf8Len_append, hlongest.utf8Len_eq, Nat.add_assoc]
      have hrest' := ih (fun l hl => hlen ▸ apart l (List.mem_cons_of_mem _ hl)) rfl
      have hfirst : ¬position + utf8Len (word ++ middle) ≤ position := by omega
      rw [← hlen] at hrest'
      have hcut := Cut.token (hlongest.insert hblanks) hrest'
      rw [spread, List.map_cons, if_neg hfirst, List.append_assoc]
      exact hcut

end Token

end Midframe
