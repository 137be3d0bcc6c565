import WaveDump.SampleRate
import WaveDump.Word

/-!
# Time units and stamps

A dump counts time in nanoseconds, microseconds or milliseconds. The unit follows from the sample
rate and is fine enough to tell neighbouring samples apart up to one gigahertz. A sample is stamped
with the number of whole ticks that have passed when it is taken; without a known rate the stamp is
the sample's index.
-/

namespace WaveDump

inductive Timescale where
  | nanoseconds
  | microseconds
  | milliseconds
deriving DecidableEq, Repr

namespace Timescale

/-- The unit for a sample rate: nanoseconds above one megahertz, microseconds above one kilohertz,
milliseconds for all others and for an unknown rate. -/
def ofRate (rate : Option Nat) : Timescale :=
  let hertz := rate.getD 0
  if megahertz < hertz then
    .nanoseconds
  else if kilohertz < hertz then
    .microseconds
  else
    .milliseconds

def ticksPerSecond : Timescale → Nat
  | .nanoseconds => 1000000000
  | .microseconds => 1000000
  | .milliseconds => 1000

def text : Timescale → String
  | .nanoseconds => "1 ns"
  | .microseconds => "1 us"
  | .milliseconds => "1 ms"

/-- The stamp of the sample with the given index, counted from one: the whole ticks in `index`
sample periods, at most the largest word. -/
def stamp (timescale : Timescale) (rate : Option Nat) (index : Nat) : Nat :=
  match rate with
  | none | some 0 => index
  | some hertz => min (index * timescale.ticksPerSecond / hertz) maxWord

end Timescale

end WaveDump
