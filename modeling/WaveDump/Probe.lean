import WaveDump.Sample
import WaveDump.Waveform

/-!
# Probes

A probe is a variable of the dump. A scalar probe shows one channel; a vector probe gathers channels
as its bits. The bits of a vector are listed from the highest to the lowest, and where several
channels claim the same bit the first of them is shown.
-/

namespace WaveDump

structure Placement where
  /-- Place within the probe, zero for the least significant. -/
  bit : Nat
  /-- Bit of the channel in a packed sample. -/
  sample : Nat
deriving DecidableEq, Repr

inductive Wiring where
  | scalar (sample : Nat)
  | vector (bits : List Placement)
deriving DecidableEq, Repr

structure Signal where
  name : String
  wiring : Wiring
deriving DecidableEq, Repr

structure Probe extends Signal where
  symbol : Char
deriving DecidableEq, Repr

namespace Wiring

/-- The channels behind a probe; a scalar's channel stands for bit zero. -/
def bits : Wiring → List Placement
  | .scalar sample => [{ bit := 0, sample }]
  | .vector bits => bits

def isVector : Wiring → Bool
  | .scalar _ => false
  | .vector _ => true

/-- The places of a vector's value below `count`, from the highest to the lowest, read off bits in
descending order. The first placement of a bit decides; the others for that bit are passed over. -/
def places (sample : Sample) : Nat → List Placement → List (Option Bool)
  | 0, _ => []
  | count + 1, [] => none :: places sample count []
  | count + 1, placement :: rest =>
    if placement.bit = count then
      some (sample.level placement.sample) ::
        places sample count (rest.dropWhile fun other => other.bit = count)
    else
      none :: places sample count (placement :: rest)

def span : Wiring → Nat
  | .scalar _ => 1
  | .vector bits =>
    match bits with
    | [] => 1
    | highest :: _ => highest.bit + 1

def value (wiring : Wiring) (sample : Sample) : Value :=
  match wiring with
  | .scalar position => .scalar (sample.level position)
  | .vector bits => .vector (places sample wiring.span bits)

def differs (wiring : Wiring) (earlier later : Sample) : Bool :=
  wiring.bits.any fun placement =>
    later.level placement.sample != earlier.level placement.sample

end Wiring

namespace Probe

def bits (probe : Probe) : List Placement :=
  probe.wiring.bits

def isVector (probe : Probe) : Bool :=
  probe.wiring.isVector

/-- The width that the dump declares: the number of channels behind the probe. -/
def width (probe : Probe) : Nat :=
  probe.bits.length

def span (probe : Probe) : Nat :=
  probe.wiring.span

def change (probe : Probe) (sample : Sample) : ValueChange where
  symbol := probe.symbol
  value := probe.wiring.value sample

def differs (probe : Probe) (earlier later : Sample) : Bool :=
  probe.wiring.differs earlier later

end Probe

end WaveDump
