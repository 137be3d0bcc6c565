import WaveDump.Moment
import WaveDump.Registry
import WaveDump.SampleRate
import WaveDump.Timescale

/-!
# The header of a dump

The header precedes the first block. It says when and with what the dump was made, how many channels
were acquired at which rate, in which unit time is counted, and declares one variable per probe.
-/

namespace WaveDump

structure Header where
  date : Moment
  toolName : String
  toolVersion : String
  rate : Option Nat
  enabledChannels : Nat
  totalChannels : Nat
  registry : Registry
deriving Repr

def Probe.declaration (probe : Probe) : String :=
  "$var wire " ++ probe.width.repr ++ " " ++ probe.symbol.toString ++ " " ++ probe.name ++ " $end\n"

namespace Header

def timescale (header : Header) : Timescale :=
  .ofRate header.rate

/-- The comment on the acquisition, which is left out when the rate is unknown. -/
def comment (header : Header) : String :=
  match header.rate with
  | none => ""
  | some rate =>
    "$comment\n  Acquisition with " ++ header.enabledChannels.repr ++ "/" ++
      header.totalChannels.repr ++ " probes at " ++ SampleRate.render rate ++ "\n$end\n"

def render (header : Header) : String :=
  "$date " ++ header.date.render ++ " $end\n" ++
    "$version " ++ header.toolName ++ " " ++ header.toolVersion ++ " $end\n" ++
    header.comment ++
    "$timescale " ++ header.timescale.text ++ " $end\n" ++
    "$scope module " ++ header.toolName ++ " $end\n" ++
    String.join (header.registry.probes.map Probe.declaration) ++
    "$upscope $end\n$enddefinitions $end\n"

end Header

end WaveDump
