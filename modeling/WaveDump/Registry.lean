import WaveDump.Channel
import WaveDump.Log
import WaveDump.Probe

/-!
# The probe registry

The registry turns a channel list into the variables of the dump. Channels whose names spell bits
of the same vector become one vector probe; every other channel is a scalar probe of its own. Probes
stand in the order in which their first channels appear and are numbered with printable characters,
which limits their number.
-/

namespace WaveDump

def maxProbes : Nat := 94

/-- Vector bits are below this bound, which limits the length of a value line. -/
def bitLimit : Nat := 65536

/-- The symbol of the probe that comes after `count` others: printable characters from `!` on. -/
def symbolAt (count : Nat) : Char :=
  Char.ofNat ('!'.toNat + count)

/-- The symbol after `count` others, as long as there are printable characters. -/
def nextSymbol? (count : Nat) : Option Char :=
  if count < maxProbes then some (symbolAt count) else none

inductive RegistryError where
  | tooManyProbes (count : Nat)
  | bitIndexTooLarge (name : String) (bit : Nat)
deriving DecidableEq, Repr

/-- What a user is told about a channel list that cannot be registered. -/
def RegistryError.message : RegistryError → String
  | .tooManyProbes count =>
    "VCD only supports " ++ maxProbes.repr ++ " probes, got " ++ count.repr
  | .bitIndexTooLarge name bit =>
    "bit index " ++ bit.repr ++ " of vector '" ++ name ++ "' exceeds the limit of " ++
      (bitLimit - 1).repr

/-- What the name of a channel at a bit of the sample says: a scalar's channel, or a bit of a
vector. -/
inductive Registration where
  | scalar (name : String) (sample : Nat)
  | vectorBit (base : String) (placement : Placement)
deriving DecidableEq, Repr

namespace Registration

/-- The registration of the channel `name` at the bit `sample` of a packed sample. -/
def ofName (name : String) (sample : Nat) : Registration :=
  match VectorBit.ofName? name with
  | some spelled => .vectorBit spelled.base { bit := spelled.bit, sample }
  | none => .scalar name sample

def error? : Registration → Option RegistryError
  | .scalar _ _ => none
  | .vectorBit base placement =>
    if bitLimit ≤ placement.bit then some (.bitIndexTooLarge base placement.bit) else none

/-- The placement that a registration adds to the vector `base`. -/
def placementIn? (base : String) : Registration → Option Placement
  | .scalar _ _ => none
  | .vectorBit other placement => if other = base then some placement else none

end Registration

/-- Bits in descending order; bits that are claimed repeatedly keep the order of their channels. -/
def descending (bits : List Placement) : List Placement :=
  bits.mergeSort fun left right => right.bit ≤ left.bit

/-- The signals that registrations form: the first bit of a vector gathers all later ones. -/
def gather : List Registration → List Signal
  | [] => []
  | .scalar name sample :: rest => { name, wiring := .scalar sample } :: gather rest
  | .vectorBit base placement :: rest =>
    let bits := placement :: rest.filterMap (Registration.placementIn? base)
    { name := base, wiring := .vector (descending bits) } ::
      gather (rest.filter fun other => (other.placementIn? base).isNone)
termination_by registrations => registrations.length
decreasing_by
  · simp
  · simpa using Nat.lt_succ_of_le (List.length_filter_le _ rest)

structure Registry where
  probes : List Probe
deriving DecidableEq, Repr

namespace Registry

/-- The probes of signals that come after `count` others, as long as there are symbols. -/
def allot (count : Nat) : List Signal → Except RegistryError (List Probe)
  | [] => .ok []
  | signal :: rest =>
    match nextSymbol? count with
    | none => .error (.tooManyProbes count)
    | some symbol =>
      match allot (count + 1) rest with
      | .error error => .error error
      | .ok probes => .ok ({ signal with symbol } :: probes)

/-- The registry of named bits of a sample. A bit index beyond the limit is reported before a number
of probes beyond the limit. -/
def build (channels : List (String × Nat)) : Except RegistryError Registry :=
  let registrations := channels.map fun (name, sample) => Registration.ofName name sample
  match registrations.findSome? Registration.error? with
  | some error => .error error
  | none =>
    let signals := gather registrations
    if signals.length ≤ maxProbes then
      match allot 0 signals with
      | .error error => .error error
      | .ok probes => .ok { probes }
    else
      .error (.tooManyProbes signals.length)

def enabledBits (channels : List Channel) : List (String × Nat) :=
  channels.zipIdx.filterMap fun (channel, position) =>
    if channel.enabled then some (channel.name, position) else none

/-- The registry of the enabled channels. A channel's bit is its place in the whole list. -/
def ofChannels (channels : List Channel) : Except RegistryError Registry :=
  build (enabledBits channels)

def find? (registry : Registry) (symbol : Char) : Option Probe :=
  if '!' ≤ symbol then registry.probes[symbol.toNat - '!'.toNat]? else none

def maxSample? (registry : Registry) : Option Nat :=
  (registry.probes.flatMap fun probe => probe.bits.map Placement.sample).max?

def report (registry : Registry) : LogEntry where
  severity := .debug
  text :=
    "probe registry: " ++ registry.probes.length.repr ++ " probes (" ++
      (registry.probes.countP Probe.isVector).repr ++ " vectors)"

end Registry

end WaveDump
