import WaveDump.Deflate.PrefixCode
import WaveDump.Deflate.Symbol

/-!
# Sizes of blocks

A block writes its symbols with codes that are made for it and told at its start, or with fixed
codes, or it holds the bytes as they are; whichever takes the least room. Its size follows from how
often each letter and each band of distances occurs.
-/

namespace WaveDump.Deflate

structure Tally where
  letters : Array Nat := Array.replicate Deflate.letters 0
  distances : Array Nat := Array.replicate distanceBands 0
  symbols : Nat := 0
deriving Repr

namespace Tally

def add (tally : Tally) (symbol : Symbol) : Tally :=
  match symbol with
  | .byte value =>
    { tally with
        letters := tally.letters.modify value.toNat (· + 1)
        symbols := tally.symbols + 1 }
  | .copy length distance =>
    { letters := tally.letters.modify (lengthLetter (lengthBand length)) (· + 1)
      distances := tally.distances.modify (distanceBand distance) (· + 1)
      symbols := tally.symbols + 1 }

def endedLetters (tally : Tally) : Array Nat :=
  tally.letters.modify endOfBlock (· + 1)

end Tally

/-- The sum of the bits that letters take, by how often they occur and what each takes. -/
def weigh (counts : Array Nat) (bits : Nat → Nat) : Nat :=
  ((List.range counts.size).map fun letter => counts.getD letter 0 * bits letter).foldl (· + ·) 0

def letterExtra (letter : Nat) : Nat :=
  if letter ≤ endOfBlock then 0 else lengthExtra (letter - lengthLetter 0)

def fixedLength (letter : Nat) : Nat :=
  if letter < 144 then 8 else if letter < 256 then 9 else if letter < 280 then 7 else 8

def fixedDistanceLength : Nat := 5

def Symbol.fixedBits (symbol : Symbol) : Nat :=
  match symbol with
  | .byte value => fixedLength value.toNat
  | .copy length distance =>
    let letter := lengthLetter (lengthBand length)
    fixedLength letter + letterExtra letter + fixedDistanceLength +
      distanceExtra (distanceBand distance)

/-! ## Telling the lengths of codes -/

def codeLimit : Nat := 15

def signLimit : Nat := 7

/-- The sign that repeats the length before it three to six times. -/
def repeatSign : Nat := 16

def fewZerosSign : Nat := 17

def manyZerosSign : Nat := 18

def signsForRepeats (length count : Nat) : List Nat :=
  List.replicate (count / 6) repeatSign ++
    if count % 6 < 3 then List.replicate (count % 6) length else [repeatSign]

def signsForZeros (count : Nat) : List Nat :=
  let rest := count % 138
  List.replicate (count / 138) manyZerosSign ++
    if rest < 3 then List.replicate rest 0
    else if rest ≤ 10 then [fewZerosSign] else [manyZerosSign]

def signsForRun (length count : Nat) : List Nat :=
  if length = 0 then signsForZeros count else length :: signsForRepeats length (count - 1)

def runs (lengths : List Nat) : List (Nat × Nat) :=
  lengths.foldr
    (fun length runs =>
      match runs with
      | (same, count) :: rest =>
        if length = same then (same, count + 1) :: rest else (length, 1) :: runs
      | [] => [(length, 1)])
    []

/-- Signs for the lengths of codes up to the last letter that has a code. -/
def signs (lengths : Array Nat) : List Nat :=
  let told := (lengths.toList.reverse.dropWhile (· = 0)).reverse
  (runs told).flatMap fun (length, count) => signsForRun length count

def signExtra (sign : Nat) : Nat :=
  if sign = repeatSign then 2
  else if sign = fewZerosSign then 3
  else if sign = manyZerosSign then 7
  else 0

/-- The order in which the lengths of the codes of signs are told. -/
def signOrder : List Nat :=
  [16, 17, 18, 0, 8, 7, 9, 6, 10, 5, 11, 4, 12, 3, 13, 2, 14, 1, 15]

/-- The bits that tell the lengths of the codes of letters and bands of distances. -/
def tellingBits (letterLengths distanceLengths : Array Nat) : Nat :=
  let row := signs letterLengths ++ signs distanceLengths
  let counts := row.foldl (fun counts sign => counts.modify sign (· + 1))
    (Array.replicate signOrder.length 0)
  let lengths := codeLengths signLimit counts
  let told := (signOrder.reverse.dropWhile fun sign => lengths.getD sign 0 = 0).length
  5 + 5 + 4 + 3 * told + weigh counts fun sign => lengths.getD sign 0 + signExtra sign

/-! ## Kinds of blocks -/

/-- The bits that tell the kind of a block, and whether it is the last one. -/
def kindBits : Nat := 3

/-- The bits of a block's content with codes that are made for it. -/
def Tally.ownBits (tally : Tally) : Nat :=
  let letters := tally.endedLetters
  let letterLengths := codeLengths codeLimit letters
  let distanceLengths := codeLengths codeLimit tally.distances
  tellingBits letterLengths distanceLengths +
    weigh letters (fun letter => letterLengths.getD letter 0 + letterExtra letter) +
    weigh tally.distances fun band => distanceLengths.getD band 0 + distanceExtra band

def Tally.fixedBits (tally : Tally) : Nat :=
  weigh tally.endedLetters (fun letter => fixedLength letter + letterExtra letter) +
    weigh tally.distances fun band => fixedDistanceLength + distanceExtra band

def bytesOfBits (bits : Nat) : Nat :=
  (bits + 7) / 8

/-- How many bits have been written after a block that covers `length` bytes of a text, when
`before` bits had been written before it. Bytes as they are start at a whole byte, after their
number. -/
def Tally.bitsAfter (tally : Tally) (length before : Nat) : Nat :=
  let own := tally.ownBits
  let fixed := tally.fixedBits
  let coded :=
    if bytesOfBits (kindBits + fixed) ≤ bytesOfBits (kindBits + own) then fixed else own
  if length + 4 ≤ bytesOfBits (kindBits + coded) then
    8 * (bytesOfBits (before + kindBits) + 4 + length)
  else
    before + kindBits + coded

end WaveDump.Deflate
