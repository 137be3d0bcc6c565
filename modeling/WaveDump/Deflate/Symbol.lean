/-!
# Symbols of deflated texts

A deflated text is a row of symbols. A symbol is a byte, or a copy of bytes that came before it.
The lengths and the distances of copies fall into bands; a copy is written as the codes of its two
bands, each followed by the extra bits that tell the members of the band apart.
-/

namespace WaveDump.Deflate

inductive Symbol where
  | byte (value : UInt8)
  | copy (length distance : Nat)
deriving DecidableEq, Repr

def shortestCopy : Nat := 3

def longestCopy : Nat := 258

def lengthBands : Nat := 29

def distanceBands : Nat := 30

/-- The band of a length. The first eight bands hold one length each, then there are four bands for
each number of extra bits. The greatest length has a band of its own. -/
def lengthBand (length : Nat) : Nat :=
  let above := length - shortestCopy
  if length = longestCopy then lengthBands - 1
  else if above < 8 then above
  else
    let extra := above.log2 - 2
    4 * extra + above >>> extra

def lengthExtra (band : Nat) : Nat :=
  if band < 8 || band = lengthBands - 1 then 0 else band / 4 - 1

/-- The band of a distance. The first four bands hold one distance each, then there are two bands
for each number of extra bits. -/
def distanceBand (distance : Nat) : Nat :=
  let above := distance - 1
  if above < 4 then above
  else
    let extra := above.log2 - 1
    2 * extra + above >>> extra

def distanceExtra (band : Nat) : Nat :=
  if band < 4 then 0 else band / 2 - 1

def endOfBlock : Nat := 256

/-- The letter of a band of lengths. Bytes, the end of a block and bands of lengths are letters of
one alphabet. -/
def lengthLetter (band : Nat) : Nat :=
  endOfBlock + 1 + band

def letters : Nat := endOfBlock + 1 + lengthBands

end WaveDump.Deflate
