/-!
# Packets

An acquisition delivers its data as packets. Only logic packets carry samples for the dump; the
others may come in between and are passed over.
-/

namespace WaveDump

inductive Packet where
  | header
  /-- Packed samples of `unitSize` bytes each. -/
  | logic (data : List UInt8) (unitSize : Nat)
  | analog
  | trigger
  /-- A property of the acquisition changed. -/
  | metadata
  | finish
deriving DecidableEq, Repr

namespace Packet

def kind : Packet → String
  | .header => "header"
  | .logic _ _ => "logic"
  | .analog => "analog"
  | .trigger => "trigger"
  | .metadata => "meta"
  | .finish => "end"

def isLogic : Packet → Bool
  | .logic _ _ => true
  | _ => false

end Packet

end WaveDump
