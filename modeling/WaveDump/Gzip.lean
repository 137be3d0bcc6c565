import WaveDump.Digest.Crc32

/-!
# Gzip files

A gzip file wraps a deflated message in a header and a trailer with its check and its length. The
writer stores the message in blocks without shortening it, and the reader accepts files of stored
blocks.
-/

namespace WaveDump.Gzip

def littleEndian (width value : Nat) : List UInt8 :=
  (List.range width).map fun place => UInt8.ofNat (value >>> (8 * place))

def blockLimit : Nat := 65535

def storedBlock (last : Bool) (piece : List UInt8) : List UInt8 :=
  (if last then 1 else 0) ::
    (littleEndian 2 piece.length ++ littleEndian 2 (blockLimit - piece.length) ++ piece)

def storedBlocks (message : List UInt8) : List UInt8 :=
  if message.length ≤ blockLimit then
    storedBlock true message
  else
    storedBlock false (message.take blockLimit) ++ storedBlocks (message.drop blockLimit)
termination_by message.length
decreasing_by
  simp only [List.length_drop, blockLimit]
  simp only [blockLimit] at *
  omega

/-- How a header tells about the effort that was asked for: 2 for the best compression, 4 for the
fastest. -/
def effortMark (level : Nat) : UInt8 :=
  if 9 ≤ level then 2 else if level ≤ 1 then 4 else 0

def compress (level : Nat) (message : List UInt8) : List UInt8 :=
  [0x1f, 0x8b, 8, 0, 0, 0, 0, 0, effortMark level, 255] ++ storedBlocks message ++
    littleEndian 4 (Crc32.checksum message).toNat ++ littleEndian 4 message.length

/-- Reads stored blocks up to the last one; returns the message and the rest. -/
def readStored (data : List UInt8) : Option (List UInt8 × List UInt8) :=
  match data with
  | mark :: low :: high :: invertedLow :: invertedHigh :: rest =>
    let size := low.toNat + 256 * high.toNat
    let piece := rest.take size
    if 1 < mark || invertedLow.toNat + 256 * invertedHigh.toNat + size != blockLimit ||
        piece.length < size then
      none
    else if mark = 1 then
      some (piece, rest.drop size)
    else
      (readStored (rest.drop size)).map fun (message, after) => (piece ++ message, after)
  | _ => none
termination_by data.length
decreasing_by
  simp only [List.length_drop, List.length_cons]
  omega

/-- The message of a gzip file of stored blocks, if its check and its length agree. -/
def decompress? (data : List UInt8) : Option (List UInt8) :=
  match data with
  | 0x1f :: 0x8b :: 8 :: 0 :: _ :: _ :: _ :: _ :: _ :: _ :: blocks =>
    match readStored blocks with
    | some (message, trailer) =>
      if trailer =
          littleEndian 4 (Crc32.checksum message).toNat ++ littleEndian 4 message.length then
        some message
      else
        none
    | none => none
  | _ => none

end WaveDump.Gzip
