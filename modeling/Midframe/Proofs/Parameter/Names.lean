import Midframe.Proofs.Parameter.Start

/-!
# Names

The name of an array is the scope of its layer, a dot, and what it is to the layer. Scopes are built
from words and numbers in the same way, behind a free prefix which may be empty or hold dots of its
own. Two scopes are apart if no name begins with both; since words and numbers hold no dots, scopes
that differ in one of them are apart, and so no two arrays of an owner have the same name.
-/

namespace Midframe

/-! ## Scopes -/

/-- A name begins with a scope. -/
def IsWithin (name scope : String) : Prop := ∃ rest, name = scope ++ "." ++ rest

/-- A scope is another one, or begins with it. -/
def IsUnder (inner outer : String) : Prop := inner = outer ∨ IsWithin inner outer

/-- No name begins with both scopes. -/
def Apart (s t : String) : Prop := ∀ name, IsWithin name s → ¬IsWithin name t

/-- A part of a name that holds no dot. -/
def IsWord (s : String) : Prop := '.' ∉ s.toList

instance (s : String) : Decidable (IsWord s) := inferInstanceAs (Decidable (¬_))

theorem isWord_toString (n : Nat) : IsWord (toString n) := by
  intro hdot
  rw [Nat.toString_eq_repr, Nat.toList_repr] at hdot
  exact absurd (Nat.isDigit_of_mem_toDigits (by decide) (by decide) hdot) (by decide)

theorem IsWithin.trans {name inner outer : String} (h : IsWithin name inner)
    (h' : IsWithin inner outer) : IsWithin name outer := by
  obtain ⟨rest, rfl⟩ := h
  obtain ⟨rest', rfl⟩ := h'
  exact ⟨rest' ++ "." ++ rest, by simp only [String.append_assoc]⟩

theorem IsWithin.of_under {name inner outer : String} (h : IsWithin name inner)
    (h' : IsUnder inner outer) : IsWithin name outer := by
  rcases h' with rfl | h'
  · exact h
  · exact h.trans h'

namespace Apart

theorem symm {s t : String} (h : Apart s t) : Apart t s :=
  fun name ht hs => h name hs ht

theorem of_under {s t s' t' : String} (h : Apart s t) (hs : IsUnder s' s) (ht : IsUnder t' t) :
    Apart s' t' :=
  fun name hname hname' => h name (hname.of_under hs) (hname'.of_under ht)

/-- Scopes behind the same prefix are apart if they are so without it. -/
theorem inside {s t : String} (h : Apart s t) (scope : String) :
    Apart (scope ++ "." ++ s) (scope ++ "." ++ t) := by
  rintro name ⟨rest, rfl⟩ ⟨rest', heq⟩
  simp only [String.append_assoc, String.append_right_inj] at heq
  exact h (t ++ "." ++ rest') ⟨rest, by simp only [String.append_assoc, heq]⟩ ⟨rest', rfl⟩

theorem inScope {s t : String} (h : Apart s t) (scope : String) :
    Apart (inScope scope s) (inScope scope t) := by
  unfold Midframe.inScope
  split
  · exact h
  · exact h.inside scope

end Apart

/-- A word ends at the first dot behind it. -/
theorem IsWord.takeWhile {word : String} (h : IsWord word) (rest : List Char) :
    (word.toList ++ '.' :: rest).takeWhile (· != '.') = word.toList := by
  have hchars : ∀ c ∈ word.toList, (c != '.') = true := by
    intro c hc
    rw [bne_iff_ne]
    rintro rfl
    exact h hc
  rw [List.takeWhile_append_of_pos hchars, List.takeWhile_cons_of_neg (by decide), List.append_nil]

/-- Different words are apart. -/
theorem apart_of_words {a b : String} (ha : IsWord a) (hb : IsWord b) (hne : a ≠ b) :
    Apart a b := by
  rintro name ⟨rest, rfl⟩ ⟨rest', heq⟩
  -- Either word is what stands in front of the first dot of the name.
  have hchars : a.toList ++ '.' :: rest.toList = b.toList ++ '.' :: rest'.toList := by
    simpa [String.append_assoc] using congrArg String.toList heq
  have hfirst := congrArg (List.takeWhile (· != '.')) hchars
  rw [ha.takeWhile, hb.takeWhile] at hfirst
  exact hne (String.toList_inj.mp hfirst)

/-- So are different numbers behind the same word. -/
theorem apart_of_ne {i j : Nat} (h : i ≠ j) (word : String) :
    Apart (word ++ "." ++ toString i) (word ++ "." ++ toString j) :=
  (apart_of_words (isWord_toString i) (isWord_toString j)
    fun heq => h (Nat.repr_injective heq)).inside word

theorem isWithin_append (scope part : String) : IsWithin (scope ++ ("." ++ part)) scope :=
  ⟨part, String.append_assoc.symm⟩

theorem IsWithin.ne_empty {name scope : String} (h : IsWithin name scope) : name ≠ "" := by
  obtain ⟨rest, rfl⟩ := h
  intro hempty
  have hchars := congrArg String.toList hempty
  simp at hchars

theorem inScope_isWithin {scope : String} (h : scope ≠ "") (name : String) :
    IsWithin (inScope scope name) scope := by
  unfold inScope
  split
  · next hempty => exact absurd (String.isEmpty_iff.mp hempty) h
  · exact ⟨name, rfl⟩

theorem inScope_ne_empty (scope word : String) (i : Nat) :
    inScope scope (word ++ "." ++ toString i) ≠ "" := by
  unfold inScope
  split
  · exact IsWithin.ne_empty ⟨_, rfl⟩
  · exact IsWithin.ne_empty ⟨_, rfl⟩

/-! ## Layers -/

namespace Layer

theorem arrays_within (scope : String) (layer : Layer) :
    ∀ a ∈ layer.arrays scope, IsWithin a.1 scope := by
  intro a ha
  cases layer with
  | conv c =>
    rcases List.mem_cons.mp ha with rfl | ha
    · exact isWithin_append scope "weight"
    · obtain ⟨bias, -, rfl⟩ := List.mem_map.mp ha
      exact isWithin_append scope "bias"
  | prelu initial slope =>
    obtain rfl := List.mem_singleton.mp ha
    exact isWithin_append scope "weight"
  | _ => cases ha

theorem names_nodup (scope : String) (layer : Layer) :
    ((layer.arrays scope).map Prod.fst).Nodup := by
  cases layer with
  | conv c =>
    cases hbias : c.bias with
    | none => simp [arrays, Convolution.arrays, hbias]
    | some bias => simp [arrays, Convolution.arrays, hbias, String.append_right_inj]
  | prelu initial slope => simp [arrays]
  | _ => exact List.nodup_nil

/-- Layers under scopes that are apart share no name. -/
theorem allArrays_names_nodup {layers : List (String × Layer)}
    (h : layers.Pairwise fun p q => Apart p.1 q.1) :
    ((allArrays layers).map Prod.fst).Nodup := by
  induction layers with
  | nil => exact List.nodup_nil
  | cons p rest ih =>
    obtain ⟨hfirst, hrest⟩ := List.pairwise_cons.mp h
    rw [allArrays_cons, List.map_append]
    refine List.nodup_append.mpr ⟨p.2.names_nodup p.1, ih hrest, ?_⟩
    intro name hname name' hname' heq
    obtain ⟨a, ha, rfl⟩ := List.mem_map.mp hname
    obtain ⟨a', ha', rfl⟩ := List.mem_map.mp hname'
    obtain ⟨q, hq, ha'⟩ := List.mem_flatMap.mp ha'
    exact hfirst q hq a.1 (arrays_within _ _ a ha) (heq ▸ arrays_within _ _ a' ha')

end Layer

/-! ## Blocks -/

namespace Block

theorem mainScope_apart (scope : String) {i j : Nat} (h : i ≠ j) :
    Apart (inScope scope s!"main.{i}") (inScope scope s!"main.{j}") :=
  (apart_of_ne h "main").inScope scope

theorem shortcutScope_apart (scope : String) (i : Nat) :
    Apart (inScope scope s!"main.{i}") (inScope scope "shortcut") := by
  have hwords : Apart "main" "shortcut" := apart_of_words (by decide) (by decide) (by decide)
  exact (hwords.of_under (.inr ⟨toString i, rfl⟩) (.inl rfl)).inScope scope

theorem chainLayers_apart (scope : String) (index : Nat) (main : List Layer) :
    (chainLayers scope index main).Pairwise fun p q => Apart p.1 q.1 := by
  induction main generalizing index with
  | nil => exact .nil
  | cons layer rest ih =>
    refine .cons (fun q hq => ?_) (ih (index + 1))
    obtain ⟨i, -, hscope⟩ := mem_chainLayers hq
    rw [hscope]
    exact mainScope_apart scope (by omega)

theorem mem_layers {scope : String} {b : Block} {p : String × Layer} (h : p ∈ b.layers scope) :
    (∃ i : Nat, p.1 = inScope scope s!"main.{i}") ∨ p.1 = inScope scope "shortcut" := by
  rcases List.mem_append.mp h with h | h
  · obtain ⟨i, -, hscope⟩ := mem_chainLayers h
    exact .inl ⟨0 + i, hscope⟩
  · split at h
    · cases h
    · obtain ⟨c, -, rfl⟩ := List.mem_map.mp h
      exact .inr rfl

/-- The layers of a block are under scopes that are apart. -/
theorem layers_apart (scope : String) (b : Block) :
    (b.layers scope).Pairwise fun p q => Apart p.1 q.1 := by
  refine List.pairwise_append.mpr ⟨chainLayers_apart scope 0 b.main, ?_, fun p hp q hq => ?_⟩
  · split
    · exact .nil
    · next sc _ =>
      unfold Shortcut.layers
      cases sc.projection with
      | none => exact .nil
      | some c => exact List.pairwise_singleton _ _
  · obtain ⟨i, -, hscope⟩ := mem_chainLayers hp
    split at hq
    · cases hq
    · obtain ⟨c, -, rfl⟩ := List.mem_map.mp hq
      rw [hscope]
      exact shortcutScope_apart scope _

theorem layers_within {scope : String} (hscope : scope ≠ "") {b : Block} {p : String × Layer}
    (h : p ∈ b.layers scope) : IsWithin p.1 scope := by
  rcases mem_layers h with ⟨i, hp⟩ | hp
  · rw [hp]
    exact inScope_isWithin hscope _
  · rw [hp]
    exact inScope_isWithin hscope _

/-- So are those of blocks under scopes that are apart. -/
theorem allLayers_apart {blocks : List (String × Block)} (hscope : ∀ b ∈ blocks, b.1 ≠ "")
    (h : blocks.Pairwise fun p q => Apart p.1 q.1) :
    (allLayers blocks).Pairwise fun p q => Apart p.1 q.1 := by
  refine List.pairwise_flatMap.mpr ⟨fun b _ => b.2.layers_apart b.1, h.imp_of_mem ?_⟩
  intro b c hb hc hapart p hp q hq
  exact hapart.of_under (.inr (layers_within (hscope b hb) hp))
    (.inr (layers_within (hscope c hc) hq))

end Block

/-! ## Pyramids -/

namespace Level

/-- The scope of an edge of a level. -/
def IsEdge (scope : String) (level : Nat) (edge : String) : Prop :=
  edge = horizontalScope scope level ∨ edge = verticalScope scope level

theorem mem_blocks {scope : String} {level : Nat} {l : Level} {b : String × Block}
    (h : b ∈ l.blocks scope level) : IsEdge scope level b.1 := by
  rcases List.mem_append.mp h with h | h
  · obtain ⟨_, -, rfl⟩ := List.mem_map.mp h
    exact .inl rfl
  · obtain ⟨_, -, rfl⟩ := List.mem_map.mp h
    exact .inr rfl

theorem horizontal_apart_vertical (scope : String) (i j : Nat) :
    Apart (horizontalScope scope i) (verticalScope scope j) := by
  have hwords : Apart "horizontal" "vertical" :=
    apart_of_words (by decide) (by decide) (by decide)
  exact (hwords.of_under (.inr ⟨toString i, rfl⟩) (.inr ⟨toString j, rfl⟩)).inScope scope

/-- The edges of different levels are apart. -/
theorem IsEdge.apart {scope : String} {i j : Nat} {edge edge' : String}
    (h : IsEdge scope i edge) (h' : IsEdge scope j edge') (hne : i ≠ j) : Apart edge edge' := by
  rcases h with rfl | rfl
  · rcases h' with rfl | rfl
    · exact (apart_of_ne hne "horizontal").inScope scope
    · exact horizontal_apart_vertical scope i j
  · rcases h' with rfl | rfl
    · exact (horizontal_apart_vertical scope j i).symm
    · exact (apart_of_ne hne "vertical").inScope scope

theorem IsEdge.ne_empty {scope : String} {level : Nat} {edge : String}
    (h : IsEdge scope level edge) : edge ≠ "" := by
  rcases h with rfl | rfl
  · exact inScope_ne_empty scope "horizontal" _
  · exact inScope_ne_empty scope "vertical" _

theorem IsEdge.isWithin {scope : String} (hscope : scope ≠ "") {level : Nat} {edge : String}
    (h : IsEdge scope level edge) : IsWithin edge scope := by
  rcases h with rfl | rfl
  · exact inScope_isWithin hscope _
  · exact inScope_isWithin hscope _

theorem blocks_apart (scope : String) (level : Nat) (l : Level) :
    (l.blocks scope level).Pairwise fun b c => Apart b.1 c.1 := by
  obtain ⟨inputs, outputs, horizontal, vertical⟩ := l
  cases horizontal with
  | none =>
    cases vertical with
    | none => exact .nil
    | some v => exact List.pairwise_singleton _ _
  | some h =>
    cases vertical with
    | none => exact List.pairwise_singleton _ _
    | some v => exact List.pairwise_pair.mpr (horizontal_apart_vertical scope level level)

end Level

namespace Pyramid

variable {d : Direction}

theorem mem_levelBlocks {scope : String} {level : Nat} {levels : List Level} {b : String × Block}
    (h : b ∈ levelBlocks scope level levels) : ∃ i ≥ level, Level.IsEdge scope i b.1 := by
  induction levels generalizing level with
  | nil => cases h
  | cons l rest ih =>
    rcases List.mem_append.mp h with h | h
    · exact ⟨level, le_rfl, Level.mem_blocks h⟩
    · obtain ⟨i, hi, hedge⟩ := ih h
      exact ⟨i, by omega, hedge⟩

theorem levelBlocks_apart (scope : String) (level : Nat) (levels : List Level) :
    (levelBlocks scope level levels).Pairwise fun b c => Apart b.1 c.1 := by
  induction levels generalizing level with
  | nil => exact .nil
  | cons l rest ih =>
    refine List.pairwise_append.mpr ⟨l.blocks_apart scope level, ih (level + 1), ?_⟩
    intro b hb c hc
    obtain ⟨i, hi, hedge⟩ := mem_levelBlocks hc
    exact (Level.mem_blocks hb).apart hedge (by omega)

/-- The blocks of a pyramid are under scopes that are apart. -/
theorem blocks_apart (p : Pyramid d) : p.blocks.Pairwise fun b c => Apart b.1 c.1 :=
  levelBlocks_apart p.scope 0 p.levels

theorem blocks_ne_empty (p : Pyramid d) : ∀ b ∈ p.blocks, b.1 ≠ "" := by
  intro b hb
  obtain ⟨i, -, hedge⟩ := mem_levelBlocks hb
  exact hedge.ne_empty

theorem blocks_within {p : Pyramid d} (hscope : p.scope ≠ "") :
    ∀ b ∈ p.blocks, IsWithin b.1 p.scope := by
  intro b hb
  obtain ⟨i, -, hedge⟩ := mem_levelBlocks hb
  exact hedge.isWithin hscope

/-- The arrays of a pyramid have different names, whatever its scope is. -/
theorem names_nodup (p : Pyramid d) : (p.arrays.map Prod.fst).Nodup :=
  Layer.allArrays_names_nodup (Block.allLayers_apart p.blocks_ne_empty p.blocks_apart)

end Pyramid

/-! ## Networks -/

namespace Heads

theorem headScope_apart {a b : String} (ha : IsWord a) (hb : IsWord b) (hne : a ≠ b) :
    Apart (Network.headScope a) (Network.headScope b) :=
  (apart_of_words ha hb hne).inside "head"

theorem blocks_within (h : Heads Block) : ∀ b ∈ h.blocks, IsWithin b.1 "head" := by
  intro b hb
  simp only [blocks, List.mem_cons, List.not_mem_nil, or_false] at hb
  obtain rfl | rfl | rfl | rfl := hb <;> exact ⟨_, rfl⟩

theorem blocks_apart (h : Heads Block) : h.blocks.Pairwise fun b c => Apart b.1 c.1 := by
  let names := ["vertical_one", "horizontal_one", "vertical_two", "horizontal_two"]
  have hwords : names.Pairwise fun a b => IsWord a ∧ IsWord b ∧ a ≠ b := by decide
  have hscopes : (names.map Network.headScope).Pairwise Apart :=
    List.pairwise_map.mpr (hwords.imp fun hab => headScope_apart hab.1 hab.2.1 hab.2.2)
  exact List.pairwise_map.mp (show (h.blocks.map Prod.fst).Pairwise Apart from hscopes)

end Heads

namespace Network

/-- The scopes of the pyramids of a network. -/
structure IsScoped (net : Network) : Prop where
  /-- That of the encoder. -/
  encoder : net.encoder.scope = "encoder"
  /-- That of the decoder. -/
  decoder : net.decoder.scope = "decoder"

theorem IsOf.isScoped {config : Config} {net : Network} (h : net.IsOf config) : net.IsScoped := by
  obtain ⟨-, -, -, hencoder, hdecoder, -⟩ := build_eq_ok h.build_reset
  obtain ⟨-, _, _, _, -, -, -, hencoder⟩ := Pyramid.build_eq_ok hencoder
  obtain ⟨-, _, _, _, -, -, -, hdecoder⟩ := Pyramid.build_eq_ok hdecoder
  exact ⟨congrArg Pyramid.scope hencoder, congrArg Pyramid.scope hdecoder⟩

namespace IsScoped

variable {net : Network}

theorem encoder_within (h : net.IsScoped) : ∀ b ∈ net.encoder.blocks, IsWithin b.1 "encoder" := by
  have hwithin := Pyramid.blocks_within (p := net.encoder) (by rw [h.encoder]; decide)
  rwa [h.encoder] at hwithin

theorem decoder_within (h : net.IsScoped) : ∀ b ∈ net.decoder.blocks, IsWithin b.1 "decoder" := by
  have hwithin := Pyramid.blocks_within (p := net.decoder) (by rw [h.decoder]; decide)
  rwa [h.decoder] at hwithin

/-- Every block is behind one of three words. -/
theorem blocks_within (h : net.IsScoped) :
    ∀ b ∈ net.blocks, ∃ word ∈ ["encoder", "decoder", "head"], IsWithin b.1 word := by
  intro b hb
  rcases List.mem_append.mp hb with hb | hb
  · rcases List.mem_append.mp hb with hb | hb
    · exact ⟨"encoder", by decide, h.encoder_within b hb⟩
    · exact ⟨"decoder", by decide, h.decoder_within b hb⟩
  · exact ⟨"head", by decide, net.heads.blocks_within b hb⟩

theorem blocks_apart (h : net.IsScoped) : net.blocks.Pairwise fun b c => Apart b.1 c.1 := by
  have hencoder : Apart "encoder" "decoder" := apart_of_words (by decide) (by decide) (by decide)
  have hhead : Apart "encoder" "head" := apart_of_words (by decide) (by decide) (by decide)
  have hhead' : Apart "decoder" "head" := apart_of_words (by decide) (by decide) (by decide)
  have hpyramids := List.pairwise_append.mpr ⟨net.encoder.blocks_apart, net.decoder.blocks_apart,
    fun b hb c hc =>
      hencoder.of_under (.inr (h.encoder_within b hb)) (.inr (h.decoder_within c hc))⟩
  refine List.pairwise_append.mpr ⟨hpyramids, net.heads.blocks_apart, fun b hb c hc => ?_⟩
  have hc := net.heads.blocks_within c hc
  rcases List.mem_append.mp hb with hb | hb
  · exact hhead.of_under (.inr (h.encoder_within b hb)) (.inr hc)
  · exact hhead'.of_under (.inr (h.decoder_within b hb)) (.inr hc)

theorem layers_apart (h : net.IsScoped) : net.layers.Pairwise fun p q => Apart p.1 q.1 := by
  have hne : ∀ b ∈ net.blocks, b.1 ≠ "" := by
    intro b hb
    obtain ⟨word, -, hwithin⟩ := h.blocks_within b hb
    exact hwithin.ne_empty
  refine List.pairwise_cons.mpr ⟨fun p hp => ?_, Block.allLayers_apart hne h.blocks_apart⟩
  obtain ⟨b, hb, hp⟩ := List.mem_flatMap.mp hp
  obtain ⟨word, hword, hwithin⟩ := h.blocks_within b hb
  have hwords : ∀ word ∈ ["encoder", "decoder", "head"], IsWord word ∧ "input" ≠ word := by decide
  have hinput : Apart "input" word :=
    apart_of_words (by decide) (hwords word hword).1 (hwords word hword).2
  exact hinput.of_under (.inl rfl) (.inr ((Block.layers_within (hne b hb) hp).trans hwithin))

/-- The arrays of a network have different names. -/
theorem names_nodup (h : net.IsScoped) : (net.arrays.map Prod.fst).Nodup :=
  Layer.allArrays_names_nodup h.layers_apart

end IsScoped

end Network

end Midframe
