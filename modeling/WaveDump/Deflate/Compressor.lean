import WaveDump.Deflate.Block
import WaveDump.Deflate.Dictionary

/-!
# How soon a compressor hands out what it makes

A compressor is given a text piece by piece. It holds back what it may still shorten: symbols are
collected until a block of them is full, and what is made of them is handed out through a buffer.
How much it has handed out decides whether an output that refuses it is noticed while the text is
still being given, or only at the end. It depends on the sizes of the deflated blocks, and so on the
symbols that are chosen; the bits themselves do not matter for it.
-/

namespace WaveDump.Deflate

def windowSize : Nat := 2 * reach

/-- The size of the buffer through which a compressor hands out what it has made. -/
def bufferSize : Nat := 32768

def waitingLimit : Nat := 65536

def fullBlock : Nat := 16383

/-- The size of the header of a compressed file, which is handed out first. -/
def headerSize : Nat := 10

/-- An occurrence chosen for a place. Length 1 stands for a byte on its own. -/
structure Choice where
  place : Nat
  /-- Where the place was before it took bytes from the copy in front of it, and one more. -/
  entered : Nat
  start : Nat := 0
  length : Nat := 1
deriving DecidableEq, Repr

structure Compressor where
  effort : Effort
  text : Text
  dictionary : Dictionary := {}
  /-- How much of the text has been given. -/
  given : Nat := 0
  base : Nat := 0
  filled : Nat := 0
  place : Nat := 0
  tally : Tally := {}
  blockStart : Nat := 0
  /-- What has been chosen for the next symbol. -/
  chosen : Option Choice := none
  earlier : Occurrence := ⟨0, 0⟩
  /-- Whether the byte at the place before has not been written. -/
  undecided : Bool := false
  bits : Nat := 0
  /-- How many bytes had been made when bytes were last moved to the buffer. -/
  settled : Nat := 0
  /-- How many bytes have been moved to the buffer. -/
  moved : Nat := 0
  buffered : Nat := 0
deriving Repr

namespace Compressor

def ahead (compressor : Compressor) : Nat :=
  compressor.filled - compressor.place

def offset (compressor : Compressor) (place : Nat) : Nat :=
  place - compressor.base

/-! ## Handing out -/

def full (compressor : Compressor) : Bool :=
  bufferSize ≤ compressor.buffered

def handOut (compressor : Compressor) : Compressor :=
  { compressor with buffered := 0 }

def move (compressor : Compressor) : Compressor :=
  let made := compressor.bits / 8
  let count := min (made - compressor.moved) (bufferSize - compressor.buffered)
  { compressor with
      settled := made
      moved := compressor.moved + count
      buffered := compressor.buffered + count }

/-- How many bytes wait to be moved. Bits that have been made since the last move wait in words of
eight bytes. -/
def waiting (compressor : Compressor) : Nat :=
  compressor.settled - compressor.moved +
    8 * ((compressor.bits - 8 * compressor.settled) / 64)

/-! ## Reading -/

/-- Reads on when too little is known ahead. The window slides when the place is near its end. -/
def refill (compressor : Compressor) : Compressor :=
  let base :=
    if reach + farthest ≤ compressor.offset compressor.place then compressor.base + reach
    else compressor.base
  { compressor with base, filled := min compressor.given (base + windowSize) }

/-! ## Choosing symbols -/

/-- Enters a place into the dictionary and returns the latest place with the same key. -/
def enter (compressor : Compressor) (place : Nat) : Nat × Compressor :=
  let key := compressor.text.key compressor.effort.fine place
  let { dictionary, .. } := compressor
  let compressor := { compressor with dictionary := { heads := #[], links := #[] } }
  let (latest, dictionary) := dictionary.enter key place
  (latest, { compressor with dictionary })

def enterAll (compressor : Compressor) (start count : Nat) : Compressor :=
  let { dictionary, text, effort, .. } := compressor
  let compressor := { compressor with dictionary := { heads := #[], links := #[] } }
  { compressor with dictionary := dictionary.enterAll text effort.fine start count }

def search (compressor : Compressor) (place : Nat) : Search where
  text := compressor.text
  links := compressor.dictionary.links
  effort := compressor.effort
  place := place
  ahead := compressor.ahead

def put (compressor : Compressor) (symbol : Symbol) : Compressor :=
  { compressor with tally := compressor.tally.add symbol }

def putBytes (compressor : Compressor) (start count : Nat) : Compressor :=
  Nat.fold count (fun index _ compressor =>
    compressor.put (.byte (compressor.text.byte (start + index)))) compressor

def shortestChoice : Nat := 4

/-! ### The latest occurrence -/

def stepSwift (compressor : Compressor) : Compressor :=
  let place := compressor.place
  let bits := if compressor.bits = 0 then kindBits else compressor.bits
  let (latest, compressor) := compressor.enter place
  let length :=
    if latest < place && place - latest ≤ farthest then
      compressor.text.agreement latest place longestCopy
    else
      0
  let symbol :=
    if shortestChoice ≤ length then Symbol.copy length (place - latest)
    else .byte (compressor.text.byte place)
  { compressor with
      bits := bits + symbol.fixedBits
      place := place + if shortestChoice ≤ length then length else 1 }

/-! ### The longest occurrence -/

def stepGreedy (compressor : Compressor) : Compressor :=
  let place := compressor.place
  let (latest, compressor) := compressor.enter place
  let found :=
    if Search.near place latest then (compressor.search place).best latest ⟨0, 0⟩ else ⟨0, 0⟩
  if shortestChoice ≤ found.length then
    let after := place + found.length
    let compressor := compressor.put (.copy found.length (place - found.start))
    let compressor :=
      if found.length ≤ compressor.effort.lazy then
        compressor.enterAll (place + 1) (found.length - 1)
      else
        (compressor.enter (after - 1)).2
    { compressor with place := after }
  else
    { compressor.put (.byte (compressor.text.byte place)) with place := place + 1 }

/-! ### Copies that give bytes to the next one -/

def choose (compressor : Compressor) (place : Nat) : Choice × Compressor :=
  let (latest, compressor) := compressor.enter place
  let found :=
    if Search.near place latest then (compressor.search place).best latest ⟨0, 0⟩ else ⟨0, 0⟩
  if shortestChoice ≤ found.length then
    ({ place, entered := place, start := found.start, length := found.length }, compressor)
  else
    ({ place, entered := place }, compressor)

/-- Enters the places of a choice that are not in the dictionary yet. Only the last place of a very
long copy is entered. -/
def enterChoice (compressor : Compressor) (choice : Choice) : Compressor :=
  if compressor.ahead ≤ choice.length + shortestChoice || choice.length < shortestChoice then
    compressor
  else if choice.length ≤ 16 * compressor.effort.lazy then
    let start := choice.place + 1
    let stop := choice.place + choice.length
    if choice.entered ≤ start then
      compressor.enterAll start (stop - start)
    else
      compressor.enterAll choice.entered (stop - choice.entered)
  else
    (compressor.enter (choice.place + choice.length - 1)).2

/-- Moves the start of a choice to the left as long as the bytes before it agree, and shortens the
choice in front of it, by no more than `count` bytes. -/
def extendLeft (text : Text) (base count : Nat) (front next : Choice) : Choice × Choice :=
  match count with
  | 0 => (front, next)
  | count + 1 =>
    if text.byte (next.start - 1) = text.byte (next.place - 1) && next.length < 256 &&
        1 < next.start - base then
      extendLeft text base count { front with length := front.length - 1 }
        { next with
            place := next.place - 1, start := next.start - 1, length := next.length + 1 }
    else
      (front, next)

/-- Gives all bytes of a copy but one to the choice behind it, if that is possible. -/
def merge (compressor : Compressor) (front next : Choice) : Choice × Choice :=
  let back := front.length - 1
  if front.length ≤ 1 || 1 + compressor.offset next.start < front.length ||
      compressor.text.byte (next.start - back) != compressor.text.byte (next.place - back) then
    (front, next)
  else
    let (shorter, longer) := extendLeft compressor.text compressor.base front.length front next
    if shorter.length < front.length && shorter.length ≤ 1 && longer.length != 2 then
      (shorter, { longer with entered := longer.entered + 1 })
    else
      (front, next)

/-- Takes the choice for the place, after the place behind it has been looked at. -/
def stepBalanced (compressor : Compressor) : Compressor :=
  let (front, compressor) :=
    match compressor.chosen with
    | some choice => (choice, { compressor with chosen := none })
    | none => compressor.choose compressor.place
  let compressor := compressor.enterChoice front
  let behind := front.place + front.length
  let (front, chosen, compressor) :=
    if !compressor.effort.hasty && margin < compressor.ahead &&
        compressor.offset behind < windowSize - margin then
      let (next, compressor) := compressor.choose behind
      if shortestChoice ≤ next.length then
        let (front, next) := compressor.merge front next
        (front, some next, compressor)
      else
        (front, some next, compressor)
    else
      (front, none, compressor)
  let compressor :=
    if front.length < shortestChoice then compressor.putBytes front.place front.length
    else compressor.put (.copy front.length (front.place - front.start))
  { compressor with place := front.place + front.length, chosen }

/-! ### Waiting for a longer occurrence -/

/-- Takes the occurrence at the place before if the one at the place is not longer. -/
def stepPatient (compressor : Compressor) : Compressor :=
  let place := compressor.place
  let earlier := compressor.earlier
  let (latest, compressor) := compressor.enter place
  let found :=
    if Search.near place latest && earlier.length < compressor.effort.lazy then
      (compressor.search place).best latest earlier
    else
      { earlier with length := shortestCopy - 1 }
  if shortestCopy ≤ earlier.length && found.length ≤ earlier.length then
    let compressor := compressor.put (.copy earlier.length (place - 1 - earlier.start))
    let last := place + compressor.ahead - shortestCopy
    let compressor := compressor.enterAll (place + 1) (min (earlier.length - 2) (last - place))
    { compressor with
        place := place + earlier.length - 1
        earlier := ⟨earlier.start, 0⟩
        undecided := false }
  else
    let compressor :=
      if compressor.undecided then compressor.put (.byte (compressor.text.byte (place - 1)))
      else compressor
    { compressor with place := place + 1, earlier := found, undecided := true }

/-! ## Working on a text -/

def step (compressor : Compressor) : Compressor :=
  match compressor.effort.strategy with
  | .store => compressor
  | .swift => compressor.stepSwift
  | .greedy => compressor.stepGreedy
  | .balanced => compressor.stepBalanced
  | .patient => compressor.stepPatient

def endBlock (compressor : Compressor) : Compressor :=
  if compressor.tally.symbols < fullBlock then
    compressor
  else
    let covered := if compressor.undecided then compressor.place - 1 else compressor.place
    { compressor with
        bits := compressor.tally.bitsAfter (covered - compressor.blockStart) compressor.bits
        tally := {}
        blockStart := covered }.move

def drain (compressor : Compressor) : Compressor :=
  if waitingLimit ≤ compressor.waiting + 8 then compressor.move else compressor

/-- Writes symbols until too little is known ahead or the buffer is full; no more than `steps`. -/
def work (compressor : Compressor) (steps : Nat) : Compressor :=
  match steps with
  | 0 => compressor
  | steps + 1 =>
    let compressor := compressor.drain
    if compressor.full then { compressor with chosen := none }
    else
      let compressor :=
        if compressor.ahead < margin then { compressor.refill with chosen := none }
        else compressor
      if compressor.ahead < margin then compressor
      else compressor.step.endBlock.work steps

def longestStored : Nat := 65531

def store (compressor : Compressor) : Compressor :=
  let slide :=
    compressor.base + windowSize < compressor.given &&
      compressor.base + reach ≤ compressor.blockStart
  let base := if slide then compressor.base + reach else compressor.base
  let filled := min compressor.given (base + windowSize)
  let compressor := { compressor with base, filled }
  let length := min (filled - compressor.blockStart) longestStored
  if filled - compressor.blockStart < reach then
    compressor
  else
    { compressor with
        bits := compressor.bits + 8 * (5 + length)
        blockStart := compressor.blockStart + length }.move

def round (compressor : Compressor) : Compressor :=
  let compressor := compressor.handOut
  let compressor := if compressor.waiting = 0 then compressor else compressor.move
  if compressor.full then compressor
  else
    match compressor.effort.strategy with
    | .store => compressor.store
    | _ => compressor.work (2 * compressor.text.size + 2)

/-- Works on the text that has been given until all of it has been read, within `rounds` rounds. -/
def read (compressor : Compressor) (rounds : Nat) : Compressor :=
  match rounds with
  | 0 => compressor
  | rounds + 1 =>
    let compressor := compressor.round
    if compressor.given ≤ compressor.filled then compressor else compressor.read rounds

def give (compressor : Compressor) (size : Nat) : Compressor :=
  if size = 0 then compressor
  else { compressor with given := compressor.given + size }.read (2 * compressor.text.size + 2)

end Compressor

/-- How many bytes of a compressed file have been handed out when all of a text has been given in
pieces of the given sizes, and nothing has been said of its end. -/
def handedOut (level : Nat) (text : List UInt8) (pieces : List Nat) : Nat :=
  let compressor : Compressor := { effort := .ofLevel level, text := text.toArray }
  let final := pieces.foldl Compressor.give compressor
  headerSize + (final.moved - final.buffered)

end WaveDump.Deflate
