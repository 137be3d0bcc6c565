import WaveDump.Deflate.Symbol

/-!
# Finding earlier occurrences

A dictionary leads from the first bytes at a place in a text to the places before it that begin
alike, the latest first. It forgets places that are too far back. How long it is searched is a
matter of the effort that is to be made.
-/

namespace WaveDump.Deflate

def reach : Nat := 32768

/-- How many bytes must be known ahead for a place to be looked at, unless the text has ended. -/
def margin : Nat := longestCopy + shortestCopy + 1

def farthest : Nat := reach - margin

inductive Strategy where
  | store
  /-- The latest occurrence is taken, and codes are fixed. -/
  | swift
  | greedy
  /-- The occurrence at the place behind a copy may take bytes from the end of it. -/
  | balanced
  /-- An occurrence is taken if there is no longer one at the next place. -/
  | patient
deriving DecidableEq, Repr

structure Effort where
  strategy : Strategy
  /-- From this length on an occurrence is good, and fewer places are tried to find a better one. -/
  good : Nat := 0
  /-- From this length on no longer occurrence is looked for at the next place, and long copies are
  not entered into the dictionary byte by byte. -/
  lazy : Nat := 0
  /-- From this length on an occurrence is good enough to end the search. -/
  nice : Nat := 0
  tries : Nat := 0
  /-- Whether a search ends at the first place that does not give a longer occurrence. -/
  hasty : Bool := false
  /-- Whether occurrences of three bytes are remembered too. -/
  fine : Bool := false
deriving DecidableEq, Repr

def Effort.ofLevel (level : Nat) : Effort :=
  match level with
  | 0 => { strategy := .store }
  | 1 => { strategy := .swift }
  | 2 => { strategy := .greedy, good := 4, lazy := 4, nice := 8, tries := 4, hasty := true }
  | 3 => { strategy := .balanced, good := 4, lazy := 6, nice := 16, tries := 6, hasty := true }
  | 4 => { strategy := .balanced, good := 4, lazy := 12, nice := 32, tries := 24, hasty := true }
  | 5 => { strategy := .balanced, good := 8, lazy := 16, nice := 32, tries := 32 }
  | 6 => { strategy := .balanced, good := 8, lazy := 16, nice := 128, tries := 128 }
  | 7 => { strategy := .patient, good := 8, lazy := 32, nice := 128, tries := 256 }
  | 8 => { strategy := .patient, good := 32, lazy := 128, nice := 258, tries := 1024 }
  | _ => { strategy := .patient, good := 32, lazy := 258, nice := 258, tries := 4096, fine := true }

abbrev Text := Array UInt8

namespace Text

def byte (text : Text) (place : Nat) : UInt8 :=
  text.getD place 0

def agreement (text : Text) (first second limit : Nat) : Nat :=
  match limit with
  | 0 => 0
  | limit + 1 =>
    if text.byte first = text.byte second then
      1 + text.agreement (first + 1) (second + 1) limit
    else
      0

/-- The key of the bytes at a place: they are mixed into a number of sixteen bits. -/
def key (text : Text) (fine : Bool) (place : Nat) : Nat :=
  let part := fun index => (text.byte (place + index)).toNat
  if fine then
    ((part 0 <<< 10) ^^^ (part 1 <<< 5) ^^^ part 2) % reach
  else
    (part 0 + part 1 <<< 8 + part 2 <<< 16 + part 3 <<< 24) * 2654435761 % 0x100000000 / 0x10000

end Text

structure Dictionary where
  heads : Array Nat := Array.replicate 0x10000 0
  /-- For each place within reach, the place before it that has the same key. -/
  links : Array Nat := Array.replicate reach 0
deriving Repr

namespace Dictionary

/-- Enters a place under its key and returns the latest place that had the key. -/
def enter (dictionary : Dictionary) (key place : Nat) : Nat × Dictionary :=
  let latest := dictionary.heads.getD key 0
  if latest = place then
    (latest, dictionary)
  else
    (latest,
      { heads := dictionary.heads.setIfInBounds key place
        links := dictionary.links.setIfInBounds (place % reach) latest })

def enterAll (dictionary : Dictionary) (text : Text) (fine : Bool) (start count : Nat) :
    Dictionary :=
  Nat.fold count (fun index _ dictionary =>
    (dictionary.enter (text.key fine (start + index)) (start + index)).2) dictionary

end Dictionary

structure Occurrence where
  start : Nat
  length : Nat
deriving DecidableEq, Repr

/-- Whether bytes at an earlier place may agree for longer than `length` with those at a place. Only
the first and the last bytes are compared. -/
def promising (text : Text) (earlier place length : Nat) : Bool :=
  let width := if length < 4 then 2 else if length < 8 then 4 else 8
  let last := length + 1 - width
  text.agreement (earlier + last) (place + last) width = width &&
    text.agreement earlier place width = width

structure Search where
  text : Text
  links : Array Nat
  effort : Effort
  place : Nat
  ahead : Nat

namespace Search

/-- Looks for an occurrence that is longer than the best one, beginning with an earlier place and
going back from it, for a number of tries. -/
def longest (search : Search) (tries earlier : Nat) (best : Occurrence) : Occurrence :=
  match tries with
  | 0 => best
  | tries + 1 =>
    let next := search.links.getD (earlier % reach) 0
    let further := fun best =>
      if search.place - farthest < next then search.longest tries next best else best
    if search.place ≤ earlier then best
    else if promising search.text earlier search.place best.length then
      let length := 2 + search.text.agreement (earlier + 2) (search.place + 2) (longestCopy - 2)
      if best.length < length then
        if search.ahead < length then ⟨earlier, search.ahead⟩
        else if search.effort.nice ≤ length then ⟨earlier, length⟩
        else further ⟨earlier, length⟩
      else if search.effort.hasty then best
      else further best
    else further best

def near (place earlier : Nat) : Bool :=
  earlier != 0 && earlier < place && place - earlier ≤ farthest

/-- The longest occurrence from an earlier place on, or the known one if there is no longer one. -/
def best (search : Search) (earlier : Nat) (known : Occurrence) : Occurrence :=
  let best := { known with length := if known.length = 0 then shortestCopy - 1 else known.length }
  let tries := search.effort.tries
  search.longest (if search.effort.good ≤ best.length then tries / 4 else tries) earlier best

end Search

end WaveDump.Deflate
