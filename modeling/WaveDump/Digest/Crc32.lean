/-!
# CRC-32

The cyclic redundancy check of 32 bits that compressed files carry, with the bits of each byte taken
from the lowest to the highest.
-/

namespace WaveDump.Crc32

def shift (register : UInt32) : UInt32 :=
  if register &&& 1 = 1 then (register >>> 1) ^^^ 0xEDB88320 else register >>> 1

def absorb (register : UInt32) (byte : UInt8) : UInt32 :=
  let mixed := register ^^^ byte.toUInt32
  shift (shift (shift (shift (shift (shift (shift (shift mixed)))))))

def checksum (message : List UInt8) : UInt32 :=
  message.foldl absorb 0xFFFFFFFF ^^^ 0xFFFFFFFF

end WaveDump.Crc32
