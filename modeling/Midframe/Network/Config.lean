import Midframe.Json.Value
import Midframe.Spec.Read

/-!
# Network configurations

A configuration fixes the channels of every level, the specifications of the blocks, the length of
the synthesis kernels and the limits on what a network accepts at run time. A file need only hold
the fields that differ from the defaults.
-/

namespace Midframe

/-- The configuration of a network. -/
structure Config where
  /-- The channels of every level, finest first. -/
  channels : List Nat := [32, 64, 128, 256, 512]
  /-- The horizontal blocks of the encoder. -/
  encoderHorizontal : String := "prelu(0.25)-conv(3)-prelu(0.25)-conv(3)+skip"
  /-- The vertical blocks of the encoder. -/
  encoderVertical : String := "prelu(0.25)-sconv(3)-prelu(0.25)-conv(3)"
  /-- The horizontal blocks of the decoder. -/
  decoderHorizontal : String := "prelu(0.25)-conv(3)-prelu(0.25)-conv(3)+skip"
  /-- The vertical blocks of the decoder. -/
  decoderVertical : String := "prelu(0.25)-up(bilinear)-conv(3)-prelu(0.25)-conv(3)"
  /-- The blocks that make synthesis kernels out of the decoder's output. -/
  head : String := "up(bilinear)-conv(3)-prelu(0.25)-conv(3)"
  /-- The length of a synthesis kernel. -/
  kernelSize : Nat := 51
  /-- The largest width of a frame. -/
  maxWidth : Nat := 1280
  /-- The largest height of a frame. -/
  maxHeight : Nat := 720
  /-- The number of workers, if it is fixed. -/
  threads : Option Nat := none
deriving DecidableEq, Repr, Inhabited

namespace Config

/-! ## Validity -/

/-- The texts of the five specifications. -/
def specs (c : Config) : List String :=
  [c.encoderHorizontal, c.encoderVertical, c.decoderHorizontal, c.decoderVertical, c.head]

/-- The number of channels that each frame contributes to the finest level. `none` without any
level. -/
def inputChannels? (c : Config) : Option Nat := c.channels.head?.map (· / 2)

/-- The first reason to refuse the extents and counts of a configuration. -/
def flaw? (c : Config) : Option InputFlaw :=
  let finest := c.channels.headD 0
  if c.channels.length < 2 then some (.tooFewLevels c.channels.length)
  else match c.channels.findIdx? (· == 0) with
    | some level => some (.zeroChannels level)
    | none =>
      if finest % 2 != 0 then some (.oddChannels finest)
      else if c.kernelSize % 2 == 0 then some (.evenKernel c.kernelSize)
      else if c.maxWidth == 0 || c.maxHeight == 0 then some .zeroLimits
      else if c.threads == some 0 then some .zeroThreads
      else none

/-- A network can be built from the configuration, as far as the fit of specifications and channels
is not concerned. -/
def validate (c : Config) : Except Fault Unit :=
  match c.flaw? with
  | some flaw => .error (.invalid flaw)
  | none => c.specs.forM fun source => discard (BlockSpec.read source)

/-- As many workers as asked for, of which there must be one. -/
def workers (threads : Nat) : Except Fault Nat :=
  if threads == 0 then .error (.invalid .zeroThreads) else .ok threads

/-! ## Files -/

/-- The configuration in a file, every field written out. -/
def toJson (c : Config) : Json :=
  .ofMembers [("channels", .ofNats c.channels),
    ("encoder_horizontal", .ofString c.encoderHorizontal),
    ("encoder_vertical", .ofString c.encoderVertical),
    ("decoder_horizontal", .ofString c.decoderHorizontal),
    ("decoder_vertical", .ofString c.decoderVertical),
    ("head", .ofString c.head),
    ("kernel_size", .ofNat c.kernelSize),
    ("max_width", .ofNat c.maxWidth),
    ("max_height", .ofNat c.maxHeight),
    ("threads", .ofOption .ofNat c.threads)]

/-- The names of the fields, in their order. -/
def fieldNames : List String :=
  ["channels", "encoder_horizontal", "encoder_vertical", "decoder_horizontal", "decoder_vertical",
    "head", "kernel_size", "max_width", "max_height", "threads"]

/-- The configuration that a file holds. -/
def ofJson? (j : Json) : Option Config := do
  match ← j.record? .refused fieldNames with
  | [channels, encoderHorizontal, encoderVertical, decoderHorizontal, decoderVertical, head,
      kernelSize, maxWidth, maxHeight, threads] =>
    let fallback : Config := {}
    return {
      channels := ← Json.defaulted? (Json.list? Json.count?) fallback.channels channels
      encoderHorizontal :=
        ← Json.defaulted? Json.text? fallback.encoderHorizontal encoderHorizontal
      encoderVertical := ← Json.defaulted? Json.text? fallback.encoderVertical encoderVertical
      decoderHorizontal :=
        ← Json.defaulted? Json.text? fallback.decoderHorizontal decoderHorizontal
      decoderVertical := ← Json.defaulted? Json.text? fallback.decoderVertical decoderVertical
      head := ← Json.defaulted? Json.text? fallback.head head
      kernelSize := ← Json.defaulted? Json.count? fallback.kernelSize kernelSize
      maxWidth := ← Json.defaulted? Json.count? fallback.maxWidth maxWidth
      maxHeight := ← Json.defaulted? Json.count? fallback.maxHeight maxHeight
      threads := ← Json.defaulted? (Json.optional? Json.count?) fallback.threads threads }
  | _ => none

/-- The configuration that a text holds. -/
def ofText (text : String) : Except Fault Config :=
  match (Json.read? text).bind ofJson? with
  | some c => .ok c
  | none => .error (.unreadable .config)

end Config

end Midframe
