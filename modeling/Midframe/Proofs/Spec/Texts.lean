import Midframe.Proofs.Spec.Cursor

/-!
# Texts and what they denote

A text is read exactly if it falls apart into tokens that denote a specification, and it is read as
the only one that they denote. Every other text is refused with a fault that repeats it. A
specification that was read has an operation, has `evenize` at its head only, and asks for kernels
from 1 to 255.
-/

namespace Midframe

open Grammar

/-! ## Tokens of a text -/

namespace Token

/-- A token in front of the end of a text. Its number, if it is one, carries no minus sign. -/
def IsOfText : Token → Prop
  | number v => signOf v.toModel.unpack = .positive
  | eof => False
  | _ => True

theorem isOfText_symbol {c : Char} {t : Token} (h : symbol? c = some t) : t.IsOfText := by
  unfold symbol? at h
  split at h <;> cases h <;> trivial

theorem isOfText_longest {cs : List Char} {t : Token} {n : Nat} (h : longest? cs = some (t, n)) :
    t.IsOfText := by
  unfold longest? at h
  split at h
  · cases h
    exact signOf_decimal _ _
  · cases h
    exact signOf_decimal _ _
  · split at h
    · cases h
    · next c rest =>
      split at h
      · cases h
        trivial
      · obtain ⟨t', ht, hpair⟩ := Option.map_eq_some_iff.mp h
        cases hpair
        exact isOfText_symbol ht

theorem isOfText_scan {position : Nat} {cs : List Char} {items : List Located}
    (h : scan position cs = .ok items) : ∀ l ∈ items, l.token.IsOfText := by
  fun_induction scan position cs generalizing items with
  | case1 =>
    cases h
    exact nofun
  | case2 _ _ _ _ ih => exact ih h
  | case3 => cases h
  | case4 position c rest _ t n found items' hscan ih =>
    cases h
    exact List.forall_mem_cons.mpr ⟨isOfText_longest found, ih hscan⟩
  | case5 => cases h

end Token

namespace BlockSpec

theorem isOfText_ofString {source : String} {tokens : Tokens}
    (h : Tokens.ofString source = .ok tokens) : ∀ l ∈ tokens.items, l.token.IsOfText := by
  unfold Tokens.ofString at h
  split at h
  · next hscan =>
    cases h
    exact Token.isOfText_scan hscan
  · cases h

theorem isUnsigned_ofString {source : String} {tokens : Tokens}
    (h : Tokens.ofString source = .ok tokens) : IsUnsigned tokens.items := by
  intro l hl v hv
  have hl := isOfText_ofString h l hl
  rwa [hv] at hl

theorem ne_eof_ofString {source : String} {tokens : Tokens}
    (h : Tokens.ofString source = .ok tokens) : ∀ l ∈ tokens.items, l.token ≠ .eof := by
  intro l hl heof
  have hl := isOfText_ofString h l hl
  rwa [heof] at hl

/-! ## Texts -/

/-- What holds of every specification that can be written. -/
structure IsWritable (spec : BlockSpec) : Prop where
  /-- There is an operation. -/
  nonempty : spec.ops ≠ []
  /-- Extents are made even only at the head of the chain. -/
  evenize : ∀ i b, spec.ops[i]? = some (.evenize b) → i = 0
  /-- The size of a kernel is between 1 and 255. -/
  kernel : ∀ n b, .conv n b ∈ spec.ops ∨ .sconv n b ∈ spec.ops → 1 ≤ n ∧ n ≤ 255

theorem isWritable_of_denotes {ts : List Token} {spec : BlockSpec} (h : Denotes ts spec) :
    spec.IsWritable := by
  cases h with
  | intro hchain _ =>
    exact ⟨hchain.ne_nil, fun _ _ => hchain.evenize_first, fun _ _ => hchain.kernel_bounds⟩

/-- A text is read as what its tokens denote. -/
theorem read_eq_ok {source : String} {spec : BlockSpec} :
    read source = .ok spec ↔
      ∃ tokens, Tokens.ofString source = .ok tokens ∧ Denotes tokens.kinds spec := by
  unfold read
  cases htokens : Tokens.ofString source with
  | error e => simp
  | ok tokens =>
    simp [← ofTokens_eq_ok (isUnsigned_ofString htokens)]

/-- A text that is not read is refused with a fault that repeats it. -/
theorem read_eq_error {source : String} (h : ∀ spec, read source ≠ .ok spec) :
    ∃ offset flaw, read source = .error (.malformedSpec source (.text offset flaw)) := by
  unfold read at h ⊢
  cases htokens : Tokens.ofString source with
  | error e => exact ⟨_, _, rfl⟩
  | ok tokens =>
    rw [htokens] at h
    dsimp only at h ⊢
    cases hspec : ofTokens tokens with
    | error e => exact ⟨_, _, rfl⟩
    | ok spec =>
      rw [hspec] at h
      exact absurd rfl (h spec)

/-- Tokens of a text denote at most one specification. -/
theorem denotes_unique {source : String} {tokens : Tokens} {spec spec' : BlockSpec}
    (htokens : Tokens.ofString source = .ok tokens) (h : Denotes tokens.kinds spec)
    (h' : Denotes tokens.kinds spec') : spec = spec' := by
  have hsign := isUnsigned_ofString htokens
  have hread := (ofTokens_eq_ok hsign).mpr h
  rw [(ofTokens_eq_ok hsign).mpr h'] at hread
  exact (Except.ok.inj hread).symm

/-- A text whose tokens denote a specification is read as that one, and the specification is unique.
Reading its tokens with a cursor comes to the same result, which includes that the cursor never
leaves them. Every other text is refused with a fault that repeats it. -/
theorem read_decides_grammar (source : String) :
    (∀ tokens, Tokens.ofString source = .ok tokens →
      (∀ spec, read source = .ok spec ↔ Denotes tokens.kinds spec) ∧
      (∀ spec spec', Denotes tokens.kinds spec → Denotes tokens.kinds spec' → spec = spec') ∧
      (Cursor.spec (Cursor.withEnd tokens)).run 0
        = some ((ofTokens tokens).map fun spec => (spec, tokens.items.length))) ∧
    (∀ spec, read source = .ok spec → spec.IsWritable) ∧
    ((¬ ∃ tokens spec, Tokens.ofString source = .ok tokens ∧ Denotes tokens.kinds spec) →
      ∃ offset flaw, read source = .error (.malformedSpec source (.text offset flaw))) := by
  refine ⟨fun tokens htokens => ⟨fun spec => ?_, fun _ _ => denotes_unique htokens,
    Cursor.run_spec (ne_eof_ofString htokens)⟩, fun spec h => ?_, fun hnone => ?_⟩
  · rw [read_eq_ok]
    constructor
    · rintro ⟨tokens', htokens', h⟩
      obtain rfl := Except.ok.inj (htokens.symm.trans htokens')
      exact h
    · exact fun h => ⟨tokens, htokens, h⟩
  · obtain ⟨tokens, -, h⟩ := read_eq_ok.mp h
    exact isWritable_of_denotes h
  · refine read_eq_error fun spec h => hnone ?_
    obtain ⟨tokens, htokens, h⟩ := read_eq_ok.mp h
    exact ⟨tokens, spec, htokens, h⟩

/-- A text that is read, with a repeated flag and a border that replaces another one, and a text
that is refused for its trailing comma. -/
theorem read_decides_grammar_samples :
    (∃ tokens,
      Tokens.ofString "evenize-prelu(-0.5)-conv(5,replpad,reflpad)+skip+skip" = .ok tokens ∧
      Denotes tokens.kinds
        ⟨[.evenize .zeros, .prelu (-0.5), .conv 5 .reflect], { skip := true }⟩) ∧
    ¬ ∃ tokens spec, Tokens.ofString "conv(3,)" = .ok tokens ∧ Denotes tokens.kinds spec := by
  constructor
  · have hread : read "evenize-prelu(-0.5)-conv(5,replpad,reflpad)+skip+skip"
        = .ok ⟨[.evenize .zeros, .prelu (-0.5), .conv 5 .reflect], { skip := true }⟩ := by
      decide +kernel
    obtain ⟨tokens, htokens, -⟩ := read_eq_ok.mp hread
    exact ⟨tokens, htokens, (((read_decides_grammar _).1 tokens htokens).1 _).mp hread⟩
  · rintro ⟨tokens, spec, htokens, h⟩
    have hread := (((read_decides_grammar _).1 tokens htokens).1 spec).mpr h
    have hrefused : read "conv(3,)"
        = .error (.malformedSpec "conv(3,)" (.text 7 (.expectedArgument .rparen))) := by
      decide +kernel
    rw [hrefused] at hread
    cases hread

end BlockSpec

end Midframe
