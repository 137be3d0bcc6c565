import WaveDump.Header
import WaveDump.Log
import WaveDump.Registry
import WaveDump.Sample
import WaveDump.Stream.Transfer
import WaveDump.Timescale
import WaveDump.Waveform

/-!
# The streaming encoder

The encoder turns packed samples into the text of a dump, one frame at a time. It hands out the
header in front of the first frame's text, writes the first sample in full, and from then on writes
only samples that differ from the one before, and of these only the probes that changed. Between
frames it keeps one sample, so captures of any length take constant memory.

A frame may have a stride other than the encoder's unit size; its samples are then cut or filled up
with low levels, and the first such frame is warned about.
-/

namespace WaveDump

structure Capture where
  channels : List Channel
  rate : Option Nat := none
deriving DecidableEq, Repr

def Capture.enabledChannels (capture : Capture) : Nat :=
  capture.channels.countP Channel.enabled

structure EncoderOptions where
  toolName : String := "logic2vcd"
  toolVersion : String := "0.1.0"
  date : Moment
  /-- Bytes in a sample; derived from the number of channels when not given. -/
  unitSize : Option Nat := none
deriving DecidableEq, Repr

inductive ConfigError where
  | registry (error : RegistryError)
  | unitSizeTooSmall (unitSize required : Nat)
deriving DecidableEq, Repr

/-- What a user is told about a configuration without an encoder. -/
def ConfigError.message : ConfigError → String
  | .registry error => error.message
  | .unitSizeTooSmall unitSize required =>
    "unit size " ++ unitSize.repr ++ " is too small, channels need " ++ required.repr ++ " bytes"

inductive Phase where
  /-- No sample has been taken; the next one is written in full. -/
  | awaitingFirstSample
  | streaming
deriving DecidableEq, Repr

structure EncoderStatistics where
  samplesIn : Nat
  samplesEmitted : Nat
  bytesOut : Nat
  probes : Nat
deriving DecidableEq, Repr

structure Encoder where
  registry : Registry
  header : Option String
  timescale : Timescale
  rate : Option Nat
  unitSize : Nat
  /-- The last sample, cut or filled up to the unit size. -/
  previous : Option Sample := none
  sampleCount : Nat := 0
  samplesEmitted : Nat := 0
  bytesOut : Nat := 0
  strideWarned : Bool := false
deriving Repr

/-- What a frame causes: the encoder after it, its text and its log entries. -/
structure Emission where
  encoder : Encoder
  text : String
  log : Log
deriving Repr

inductive EncodeError where
  /-- Samples of no bytes cannot be told apart. -/
  | zeroStride
  | io (failure : Failure)
deriving DecidableEq, Repr

/-- What a user is told about a frame that was not encoded or not written. -/
def EncodeError.message : EncodeError → String
  | .zeroStride => "sample stride must be at least one byte"
  | .io failure => "I/O error: " ++ failure.text

namespace Encoder

def requiredUnitSize (registry : Registry) : Nat :=
  match registry.maxSample? with
  | some position => bytesFor (position + 1)
  | none => 0

/-- The unit size for a capture: the one asked for, if it is large enough, or the size that holds
all channels. -/
def chooseUnitSize (registry : Registry) (capture : Capture) (asked : Option Nat) :
    Except ConfigError Nat :=
  match asked with
  | none => .ok (bytesFor capture.channels.length)
  | some unitSize =>
    let required := requiredUnitSize registry
    if unitSize < required then .error (.unitSizeTooSmall unitSize required) else .ok unitSize

def headerFor (registry : Registry) (capture : Capture) (options : EncoderOptions) : Header where
  date := options.date
  toolName := options.toolName
  toolVersion := options.toolVersion
  rate := capture.rate
  enabledChannels := capture.enabledChannels
  totalChannels := capture.channels.length
  registry := registry

/-- The encoder for a registered capture, before its first frame. -/
def fresh (registry : Registry) (capture : Capture) (options : EncoderOptions) (unitSize : Nat) :
    Encoder where
  registry := registry
  header := some (headerFor registry capture options).render
  timescale := .ofRate capture.rate
  rate := capture.rate
  unitSize := unitSize

def report (encoder : Encoder) : LogEntry where
  severity := .debug
  text :=
    "vcd encoder: " ++ encoder.registry.probes.length.repr ++ " probes, unit size " ++
      encoder.unitSize.repr ++ ", timescale " ++ encoder.timescale.text

/-- Makes an encoder for a capture. A channel list that cannot be registered is reported before a
unit size that is too small. -/
def create (capture : Capture) (options : EncoderOptions) : Except ConfigError Encoder × Log :=
  match Registry.ofChannels capture.channels with
  | .error error => (.error (.registry error), [])
  | .ok registry =>
    match chooseUnitSize registry capture options.unitSize with
    | .error error => (.error error, [registry.report])
    | .ok unitSize =>
      let encoder := fresh registry capture options unitSize
      (.ok encoder, [registry.report, encoder.report])

def phase (encoder : Encoder) : Phase :=
  match encoder.previous with
  | none => .awaitingFirstSample
  | some _ => .streaming

def headerPending (encoder : Encoder) : Bool :=
  encoder.header.isSome

/-! ## Samples -/

/-- The block of the sample with the given index: all probes for the first sample, the changed ones
for a later sample, and no block for a sample equal to the one before. -/
def block? (encoder : Encoder) (index : Nat) (sample : Sample) : Option Block :=
  let time := encoder.timescale.stamp encoder.rate index
  match encoder.previous with
  | none =>
    some {
      time
      initial := true
      changes := encoder.registry.probes.map fun probe => probe.change sample
    }
  | some previous =>
    if sample = previous then
      none
    else
      let changed := encoder.registry.probes.filter fun probe => probe.differs previous sample
      some { time, initial := false, changes := changed.map fun probe => probe.change sample }

def step (encoder : Encoder) (sample : Sample) : Encoder × Option Block :=
  let current := sample.resize encoder.unitSize
  let index := encoder.sampleCount + 1
  match encoder.block? index current with
  | none => ({ encoder with sampleCount := index }, none)
  | some block =>
    ({ encoder with
        previous := some current
        sampleCount := index
        samplesEmitted := encoder.samplesEmitted + 1 }, some block)

def absorb (run : Encoder × String) (sample : Sample) : Encoder × String :=
  match run with
  | (encoder, text) =>
    match encoder.step sample with
    | (next, none) => (next, text)
    | (next, some block) => (next, text ++ block.text)

/-! ## Frames -/

/-- Whether a frame of this stride is the first to be warned about. -/
def warnsAbout (encoder : Encoder) (stride : Nat) : Bool :=
  stride != encoder.unitSize && !encoder.strideWarned

def strideWarning (encoder : Encoder) (stride : Nat) : LogEntry where
  severity := .warning
  text :=
    "sample stride " ++ stride.repr ++ " differs from unit size " ++ encoder.unitSize.repr ++
      ", samples will be resized"

/-- The encoder once the header is handed out and a frame of this stride has been looked at. -/
def openFrame (encoder : Encoder) (stride : Nat) : Encoder :=
  { encoder with
      header := none
      strideWarned := encoder.strideWarned || stride != encoder.unitSize }

/-- Takes the whole samples of a frame and returns their text, with the header in front if it is
still pending. -/
def encode (encoder : Encoder) (frame : List UInt8) (stride : Nat) : Except EncodeError Emission :=
  if stride = 0 then
    .error .zeroStride
  else
    let warning := if encoder.warnsAbout stride then [encoder.strideWarning stride] else []
    let (final, text) :=
      (Sample.ofFrame stride frame).foldl absorb
        (encoder.openFrame stride, encoder.header.getD "")
    let trace : LogEntry :=
      { severity := .trace
        text :=
          "frame: " ++ frame.length.repr ++ " bytes in, " ++ text.utf8ByteSize.repr ++
            " bytes out, " ++ final.sampleCount.repr ++ " samples total" }
    .ok
      { encoder := { final with bytesOut := final.bytesOut + text.utf8ByteSize }
        text
        log := warning ++ [trace] }

/-! ## The end of a dump -/

def statistics (encoder : Encoder) : EncoderStatistics where
  samplesIn := encoder.sampleCount
  samplesEmitted := encoder.samplesEmitted
  bytesOut := encoder.bytesOut
  probes := encoder.registry.probes.length

def finishReport (encoder : Encoder) : LogEntry where
  severity := .debug
  text :=
    "vcd encoder finished: " ++ encoder.sampleCount.repr ++ " samples in, " ++
      encoder.samplesEmitted.repr ++ " emitted"

end Encoder

end WaveDump
