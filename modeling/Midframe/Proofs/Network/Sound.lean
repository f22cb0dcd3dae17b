import Midframe.Network
import Midframe.Proofs.Pyramid.Mirror

/-!
# Built networks

What holds of every network that a configuration builds, whatever its specifications are: all
blocks are regular, the four heads do the same to shapes, their kernels are as long as the
configuration says, and that length is odd.
-/

namespace Midframe

namespace Heads

variable {α β : Type} {h : Heads α}

/-- Every head has a property. -/
structure Forall (P : α → Prop) (h : Heads α) : Prop where
  /-- The first vertical one has it. -/
  verticalOne : P h.verticalOne
  /-- The first horizontal one has it. -/
  horizontalOne : P h.horizontalOne
  /-- The second vertical one has it. -/
  verticalTwo : P h.verticalTwo
  /-- The second horizontal one has it. -/
  horizontalTwo : P h.horizontalTwo

/-- A traversal succeeds exactly if it does at every head. -/
theorem traverse_eq_ok {f : String → α → Except Fault β} {r : Heads β} :
    h.traverse f = .ok r ↔
      f "vertical_one" h.verticalOne = .ok r.verticalOne ∧
      f "horizontal_one" h.horizontalOne = .ok r.horizontalOne ∧
      f "vertical_two" h.verticalTwo = .ok r.verticalTwo ∧
      f "horizontal_two" h.horizontalTwo = .ok r.horizontalTwo := by
  simp only [traverse, bind_eq_ok, pure_eq_ok]
  constructor
  · rintro ⟨a, ha, b, hb, c, hc, d, hd, rfl⟩
    exact ⟨ha, hb, hc, hd⟩
  · rintro ⟨ha, hb, hc, hd⟩
    exact ⟨_, ha, _, hb, _, hc, _, hd, rfl⟩

namespace Forall

variable {P Q : α → Prop}

theorem mono (hP : h.Forall P) (hPQ : ∀ a, P a → Q a) : h.Forall Q :=
  ⟨hPQ _ hP.verticalOne, hPQ _ hP.horizontalOne, hPQ _ hP.verticalTwo, hPQ _ hP.horizontalTwo⟩

theorem and (hP : h.Forall P) (hQ : h.Forall Q) : h.Forall fun a => P a ∧ Q a :=
  ⟨⟨hP.verticalOne, hQ.verticalOne⟩, ⟨hP.horizontalOne, hQ.horizontalOne⟩,
    ⟨hP.verticalTwo, hQ.verticalTwo⟩, ⟨hP.horizontalTwo, hQ.horizontalTwo⟩⟩

/-- What holds of the results of a traversal, head by head. -/
theorem of_traverse {R : β → Prop} {f : String → α → Except Fault β} {r : Heads β}
    (hP : h.Forall P) (hr : h.traverse f = .ok r)
    (hR : ∀ name a b, P a → f name a = .ok b → R b) : r.Forall R := by
  obtain ⟨hone, htwo, hthree, hfour⟩ := traverse_eq_ok.mp hr
  exact ⟨hR _ _ _ hP.verticalOne hone, hR _ _ _ hP.horizontalOne htwo,
    hR _ _ _ hP.verticalTwo hthree, hR _ _ _ hP.horizontalTwo hfour⟩

end Forall

end Heads

/-- What a head of a built network looks like: it is a regular block of the given form, and gives as
many channels as a kernel has taps. -/
structure Block.IsHead (b : Block) (form : Block) (taps : Nat) : Prop where
  /-- The block is regular. -/
  regular : b.IsRegular
  /-- It has the form. -/
  form_eq : b.form = form
  /-- Its result has one channel for every tap. -/
  maps : ∃ inputs, b.Maps inputs taps

theorem Block.IsHead.taps {b form : Block} {taps : Nat} (h : b.IsHead form taps) {s t : Shape}
    (hst : b.outputShape s = .ok t) : t.channels = taps := by
  obtain ⟨_, hmaps⟩ := h.maps
  exact (hmaps.infer s t hst).2

/-- What a block gives that takes two entries of its plan behind the first, the last one odd. -/
theorem Block.maps_of_odd {source : String} {spec : BlockSpec} {a b k : Nat} (odd : k % 2 = 1)
    {block compiled : Block} (h : Block.compile source spec [a, b, k] = .ok compiled)
    (hform : block.form = compiled.form) : block.Maps a k := by
  obtain ⟨n, hn, hmaps⟩ := Block.compile_maps h
  -- An odd entry cannot have been divided by four.
  cases hshuffles : spec.trailingShuffles with
  | zero =>
    rw [hshuffles, Nat.pow_zero, Nat.mul_one] at hn
    exact hn ▸ hmaps block hform
  | succ j =>
    rw [hshuffles, Nat.pow_succ, ← Nat.mul_assoc] at hn
    omega

/-- What a configuration has that is not refused. -/
structure Config.IsValid (c : Config) : Prop where
  /-- There are two levels. -/
  levels : 2 ≤ c.channels.length
  /-- Every level has channels. -/
  nonzero : ∀ n ∈ c.channels, n ≠ 0
  /-- The finest channel count can be halved. -/
  even : c.channels.headD 0 % 2 = 0
  /-- A kernel has a centre. -/
  odd : c.kernelSize % 2 = 1

theorem Config.isValid_of_validate {c : Config} (h : c.validate = .ok ()) : c.IsValid := by
  have hflaw : c.flaw? = none := by
    unfold Config.validate at h
    split at h
    · cases h
    · assumption
  unfold Config.flaw? at hflaw
  simp only at hflaw
  split at hflaw
  · cases hflaw
  · next hlevels =>
    split at hflaw
    · cases hflaw
    · next hzero =>
      split at hflaw
      · cases hflaw
      · next heven =>
        split at hflaw
        · cases hflaw
        · next hodd =>
          refine ⟨by omega, fun n hn => ?_, by simpa using heven, ?_⟩
          · simpa using List.findIdx?_eq_none_iff.mp hzero n hn
          · simp only [beq_iff_eq] at hodd
            omega

namespace Network

/-- What holds of a built network. -/
structure IsSound (net : Network) : Prop where
  /-- The convolution in front takes three channels, with windows of three rows and columns. -/
  input : net.input.form =
    (Convolution.blank 3 net.input.outputs 3 ⟨1, 1, .zeros⟩ true).form
  /-- The encoder is regular. -/
  encoder : net.encoder.IsRegular
  /-- The decoder is regular. -/
  decoder : net.decoder.IsRegular
  /-- All heads are of the form of the first. -/
  heads : net.heads.Forall fun b => b.IsHead net.heads.verticalOne.form net.config.kernelSize
  /-- The kernels have a centre. -/
  odd : net.config.kernelSize % 2 = 1

/-- What a successful construction has done. -/
theorem build_eq_ok {config : Config} {net : Network} (h : build config = .ok net) :
    config.validate = .ok () ∧ net.config = config ∧
      net.input = buildInput (config.inputChannels?.getD 0) ∧
      Pyramid.build .fineToCoarse "encoder" (List.replicate config.channels.length 0)
        config.channels config.encoderHorizontal config.encoderVertical = .ok net.encoder ∧
      Pyramid.build .coarseToFine "decoder" (config.channels.set 0 0) (config.channels.set 0 0)
        config.decoderHorizontal config.decoderVertical = .ok net.decoder ∧
      ∃ spec, BlockSpec.read config.head = .ok spec ∧
        (Heads.replicate spec).traverse (fun name spec =>
          Block.build (headScope name) config.head spec
            [config.channels.getD 1 0, config.channels.getD 1 0, config.kernelSize])
          = .ok net.heads := by
  simp only [build, bind_eq_ok, pure_eq_ok] at h
  obtain ⟨⟨⟩, hvalid, encoder, hencoder, decoder, hdecoder, spec, hspec, heads, hheads, rfl⟩ := h
  exact ⟨hvalid, rfl, rfl, hencoder, hdecoder, spec, hspec, hheads⟩

theorem buildInput_form (outputs : Nat) :
    (buildInput outputs).form = (Convolution.blank 3 outputs 3 ⟨1, 1, .zeros⟩ true).form :=
  rfl

theorem buildInput_outputs (outputs : Nat) : (buildInput outputs).outputs = outputs :=
  congrArg Convolution.outputs (buildInput_form outputs)

/-- Every built network is sound. -/
theorem build_isSound {config : Config} {net : Network} (h : build config = .ok net) :
    net.IsSound := by
  obtain ⟨hvalid, hconfig, hinput, hencoder, hdecoder, spec, -, hheads⟩ := build_eq_ok h
  have hodd := (Config.isValid_of_validate hvalid).odd
  obtain ⟨hone, htwo, hthree, hfour⟩ := Heads.traverse_eq_ok.mp hheads
  obtain ⟨compiled, hcompiled, hform⟩ := Block.build_eq_ok hone
  have hhead {scope : String} {b : Block} (hb : Block.build scope config.head spec
      [config.channels.getD 1 0, config.channels.getD 1 0, config.kernelSize] = .ok b) :
      b.IsHead net.heads.verticalOne.form net.config.kernelSize := by
    obtain ⟨compiled', hcompiled', hform'⟩ := Block.build_eq_ok hb
    obtain rfl : compiled = compiled' := Except.ok.inj (hcompiled.symm.trans hcompiled')
    refine ⟨Block.build_isRegular hb, hform'.trans hform.symm, config.channels.getD 1 0, ?_⟩
    rw [hconfig]
    exact Block.maps_of_odd hodd hcompiled hform'
  refine ⟨?_, Pyramid.build_isRegular hencoder, Pyramid.build_isRegular hdecoder,
    ⟨hhead hone, hhead htwo, hhead hthree, hhead hfour⟩, hconfig ▸ hodd⟩
  rw [hinput, buildInput_outputs, buildInput_form]

end Network

end Midframe
