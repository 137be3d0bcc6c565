import WaveDump.Directory
import WaveDump.Log

/-!
# Histories

The history of a conversion holds what can be watched while it runs: what it tells, and what reaches
devices. Both may end up on the same device, so their order is kept.
-/

namespace WaveDump

inductive Event where
  | told (entry : LogEntry)
  | sent (outlet : Outlet) (bytes : List UInt8)
deriving DecidableEq, Repr

abbrev History := List Event

namespace History

def telling (log : Log) : History :=
  log.map .told

/-- The history of writing bytes to an output. Nothing can be watched of writing to a file. -/
def sending (output : Output) (bytes : List UInt8) : History :=
  match output with
  | .file _ => []
  | .device outlet => [.sent outlet bytes]

def log (history : History) : Log :=
  history.filterMap fun event =>
    match event with
    | .told entry => some entry
    | .sent _ _ => none

def sentTo (history : History) (outlet : Outlet) : List UInt8 :=
  history.flatMap fun event =>
    match event with
    | .told _ => []
    | .sent through bytes => if through = outlet then bytes else []

end History

end WaveDump
