import Midframe.Proofs.Spec.Cutting
import Midframe.Proofs.Spec.Texts

/-!
# Chains of bare words

Where every operation of a text is a keyword alone, the text is cut into these words and what joins
them, and it denotes the operations with the arguments that they have by default. A text of any
length is read in this way.
-/

namespace Midframe

namespace Token

/-- Wherever they start, characters are cut into tokens of these kinds. -/
def CutInto (cs : List Char) (kinds : List Token) : Prop :=
  ∀ position, ∃ items, scan position cs = .ok items ∧ items.map Located.token = kinds

theorem CutInto.nil : CutInto [] [] := fun _ => ⟨[], by rw [scan], rfl⟩

/-- The longest token in front of characters that are cut. -/
theorem CutInto.token {word rest : List Char} {t : Token} {kinds : List Token}
    (longest : IsLongest word rest t) (h : CutInto rest kinds) :
    CutInto (word ++ rest) (t :: kinds) := by
  intro position
  obtain ⟨items, hscan, hitems⟩ := h (position + word.length)
  rw [scan_token longest, hscan]
  exact ⟨_, rfl, by rw [List.map_cons, hitems]⟩

/-- A word starts with a letter and goes on with word characters. -/
def IsWord : List Char → Prop
  | [] => False
  | c :: cs => isBlank c = false ∧ c.isDigit = false ∧ c ≠ '.' ∧ isWordStart c = true ∧
    cs.all isWordPart = true

instance (cs : List Char) : Decidable (IsWord cs) :=
  match cs with
  | [] => .isFalse id
  | _ :: _ => inferInstanceAs (Decidable (_ ∧ _))

/-- A word is a token if no word character follows it. -/
theorem CutInto.word {word rest : List Char} {kinds : List Token} (isWord : IsWord word)
    (ends : ∀ d ∈ rest.head?, isWordPart d = false) (h : CutInto rest kinds) :
    CutInto (word ++ rest) (.ident (String.ofList word) :: kinds) := by
  cases word with
  | nil => exact isWord.elim
  | cons c cs =>
    obtain ⟨-, hdigit, hpoint, hstart, hparts⟩ := isWord
    have hword : (cs ++ rest).takeWhile isWordPart = cs := by
      rw [takeWhile_append_of_all hparts]
      cases rest with
      | nil => exact List.append_nil cs
      | cons d rest =>
        rw [List.takeWhile_cons_of_neg (by simp [ends d rfl]), List.append_nil]
    refine CutInto.token (longest?_eq_some.mp ?_) h
    simp only [longest?, List.cons_append, number?_eq_none hdigit hpoint, hstart, ↓reduceIte, hword]

/-- A symbol is a token by itself. -/
theorem CutInto.symbol {c : Char} {t : Token} {rest : List Char} {kinds : List Token}
    (found : ∀ rest, longest? (c :: rest) = some (t, 1)) (h : CutInto rest kinds) :
    CutInto (c :: rest) (t :: kinds) :=
  @CutInto.token [c] rest t kinds (longest?_eq_some.mp (found rest)) h

end Token

namespace BlockSpec

open Token Grammar

/-- The operation that a keyword stands for when it stands alone. -/
def bareOp? : String → Option Op
  | "conv" => some (.conv 3 .zeros)
  | "sconv" => some (.sconv 3 .zeros)
  | "up" => some (.up .bilinear)
  | "prelu" => some (.prelu 0.25)
  | _ => none

/-- Keywords joined by `-`. -/
def joined : List String → String
  | [] => ""
  | [word] => word
  | word :: words => word ++ "-" ++ joined words

/-- Flags that each follow a `+`. -/
def flagText : List String → String
  | [] => ""
  | name :: names => "+" ++ name ++ flagText names

/-- The tokens of joined keywords. -/
def joinedTokens : List String → List Token
  | [] => []
  | [word] => [.ident word]
  | word :: words => .ident word :: .minus :: joinedTokens words

theorem operation_of_bareOp? {word : String} {op : Op} (h : bareOp? word = some op) :
    Operation [.ident word] op ∧ IsWord word.toList ∧ ∀ b, op ≠ .evenize b := by
  unfold bareOp? at h
  split at h <;> cases h
  · exact ⟨.conv .absent, by decide, nofun⟩
  · exact ⟨.sconv .absent, by decide, nofun⟩
  · exact ⟨.up .absent, by decide, nofun⟩
  · exact ⟨.prelu .absent, by decide, nofun⟩

/-- Flags are cut into their tokens. -/
theorem cutInto_flagText {names : List String} (h : ∀ name ∈ names, name ∈ flagNames) :
    CutInto (flagText names).toList (flagTokens names) ∧
      ∀ d ∈ (flagText names).toList.head?, isWordPart d = false := by
  induction names with
  | nil => exact ⟨CutInto.nil, nofun⟩
  | cons name names ih =>
    obtain ⟨hrest, hends⟩ := ih fun n hn => h n (List.mem_cons_of_mem _ hn)
    have hword : IsWord name.toList := by
      have hname := h name List.mem_cons_self
      simp only [flagNames, List.mem_cons, List.not_mem_nil, or_false] at hname
      rcases hname with rfl | rfl | rfl <;> decide
    have htext : (flagText (name :: names)).toList
        = '+' :: (name.toList ++ (flagText names).toList) := by
      simp [flagText, String.toList_append]
    rw [htext]
    refine ⟨?_, fun d hd => ?_⟩
    · have hcut := CutInto.word hword hends hrest
      rw [String.ofList_toList] at hcut
      exact CutInto.symbol (fun _ => rfl) hcut
    · cases hd
      rfl

/-- Joined keywords are cut into their tokens, in front of anything that is no part of a word. -/
theorem cutInto_joined {words : List String} {ops : List Op}
    (h : List.Forall₂ (fun word op => bareOp? word = some op) words ops) {rest : List Char}
    {kinds : List Token} (ends : ∀ d ∈ rest.head?, isWordPart d = false)
    (hrest : CutInto rest kinds) :
    CutInto ((joined words).toList ++ rest) (joinedTokens words ++ kinds) := by
  induction h with
  | nil => exact hrest
  | @cons word op words ops hword _ ih =>
    obtain ⟨-, hchars, -⟩ := operation_of_bareOp? hword
    cases words with
    | nil =>
      have hcut := CutInto.word hchars ends hrest
      rwa [String.ofList_toList] at hcut
    | cons next words =>
      have htext : (joined (word :: next :: words)).toList ++ rest
          = word.toList ++ '-' :: ((joined (next :: words)).toList ++ rest) := by
        simp [joined, String.toList_append]
      have hminus := CutInto.symbol (c := '-') (t := .minus) (fun _ => rfl) ih
      have hcut := CutInto.word hchars (fun d hd => by cases hd; rfl) hminus
      rw [String.ofList_toList] at hcut
      rw [htext]
      exact hcut

theorem exists_bareOp? {words : List String} {ops : List Op}
    (h : List.Forall₂ (fun word op => bareOp? word = some op) words ops) {op : Op}
    (hop : op ∈ ops) : ∃ word ∈ words, bareOp? word = some op := by
  induction h with
  | nil => cases hop
  | @cons word o words ops hword _ ih =>
    rcases List.mem_cons.mp hop with rfl | hop
    · exact ⟨word, List.mem_cons_self, hword⟩
    · obtain ⟨w, hw, heq⟩ := ih hop
      exact ⟨w, List.mem_cons_of_mem _ hw, heq⟩

theorem chain_joined {words : List String} {ops : List Op}
    (h : List.Forall₂ (fun word op => bareOp? word = some op) words ops) (nonempty : words ≠ []) :
    Chain (joinedTokens words) ops := by
  induction h with
  | nil => exact absurd rfl nonempty
  | @cons word op words ops hword hrest ih =>
    obtain ⟨hop, -, -⟩ := operation_of_bareOp? hword
    cases hrest with
    | nil => exact .last hop
    | @cons next op' words ops hnext hrest =>
      refine .link hop (ih (List.cons_ne_nil _ _)) fun b hb => ?_
      obtain ⟨w, -, hw⟩ := exists_bareOp? (.cons hnext hrest) hb
      exact (operation_of_bareOp? hw).2.2 b rfl

/-- Joined keywords and flags are read as what they stand for. -/
theorem read_joined {words : List String} {ops : List Op} (names : List String)
    (h : List.Forall₂ (fun word op => bareOp? word = some op) words ops) (nonempty : words ≠ [])
    (hnames : ∀ name ∈ names, name ∈ flagNames) :
    read (joined words ++ flagText names) = .ok ⟨ops, raised names⟩ := by
  obtain ⟨hflags, hends⟩ := cutInto_flagText hnames
  obtain ⟨items, hscan, hitems⟩ := cutInto_joined h hends hflags 0
  refine read_eq_ok.mpr ⟨⟨items, (joined words ++ flagText names).utf8ByteSize⟩, ?_, ?_⟩
  · unfold Tokens.ofString
    rw [String.toList_append, hscan]
  · have hkinds : Tokens.kinds ⟨items, (joined words ++ flagText names).utf8ByteSize⟩
        = joinedTokens words ++ flagTokens names ++ [.eof] := by
      rw [Tokens.kinds, hitems]
    rw [hkinds]
    exact .intro (chain_joined h nonempty) hnames

end BlockSpec

end Midframe
