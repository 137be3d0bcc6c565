/-!
# Text for terminals

A text that is meant for a terminal may mark what stands out, by control sequences that switch a
style on and off. `plain` is what such a text is away from a terminal: sequences are left out, and
so are control characters other than white space, also those that the text was given from elsewhere.
-/

namespace WaveDump.Text.Terminal

def mark (text : String) : String :=
  "\x1b[1m" ++ text ++ "\x1b[0m"

inductive Sequence where
  | outside
  | escape
  /-- An escape character and signs that prolong a short sequence. -/
  | prolonged
  /-- Parameters of a sequence that a letter ends. -/
  | parameters
  /-- A command to the terminal, ended by a bell. -/
  | command
  | string
  /-- A string for a device, before its parameters. -/
  | device
  | deviceParameters
  | deviceSigns
  | deviceString
deriving DecidableEq, Repr

def escapeChar : Char := '\x1b'
def bell : Char := '\x07'

def cancels (char : Char) : Bool :=
  char == '\x18' || char == '\x1a'

def within (first last : Nat) (char : Char) : Bool :=
  first ≤ char.toNat && char.toNat ≤ last

/-- Whether a byte of the encoded character is the terminator of strings. -/
def holdsTerminator (char : Char) : Bool :=
  (String.utf8EncodeChar char).contains 0x9c

/-- White space in the range of control characters that is shown as it is. -/
def isSpacing (char : Char) : Bool :=
  char == '\t' || char == '\n' || char == '\x0c' || char == '\r'

namespace Sequence

/-- The sequence that starts with an escape character and the given one. -/
def opened (char : Char) : Sequence :=
  if char == '[' then .parameters
  else if char == ']' then .command
  else if char == 'P' then .device
  else if char == 'X' || char == '^' || char == '_' then .string
  else if within 0x20 0x2f char then .prolonged
  else if within 0x30 0x7e char then .outside
  else .escape

/-- The sequence that the reader is in after a further character. -/
def next (sequence : Sequence) (char : Char) : Sequence :=
  if char == escapeChar then .escape
  else if cancels char then .outside
  else
    match sequence with
    | .outside => .outside
    | .escape => opened char
    | .prolonged => if within 0x30 0x7e char then .outside else .prolonged
    | .parameters => if within 0x40 0x7e char then .outside else .parameters
    | .command => if char == bell then .outside else .command
    | .string => if holdsTerminator char then .outside else .string
    | .device =>
      if within 0x20 0x2f char then .deviceSigns
      else if within 0x30 0x3f char then .deviceParameters
      else if within 0x40 0x7e char then .deviceString
      else .device
    | .deviceParameters =>
      if within 0x20 0x2f char then .deviceSigns
      else if within 0x3c 0x7e char then .deviceString
      else .deviceParameters
    | .deviceSigns => if within 0x30 0x7e char then .deviceString else .deviceSigns
    | .deviceString => if holdsTerminator char then .outside else .deviceString

def shows (sequence : Sequence) (char : Char) : Bool :=
  match sequence with
  | .outside => isSpacing char || (0x20 ≤ char.toNat && char.toNat != 0x7f)
  | .escape | .prolonged | .parameters => isSpacing char
  | _ => false

end Sequence

/-- A reader of a text. Spacing inside a sequence is shown, and what comes after it too, up to the
next control character; from there on the sequence goes on. -/
structure Reader where
  sequence : Sequence := .outside
  /-- Whether the last character was shown. -/
  showing : Bool := false
deriving DecidableEq, Repr

/-- The reader after a further character. A character that is shown leaves the sequence as it is,
unless it is one that no sequence can hold. -/
def Reader.next (reader : Reader) (char : Char) : Reader :=
  if reader.showing then
    let leaves := char == escapeChar || cancels char || 0x80 ≤ char.toNat
    { sequence := if leaves then Sequence.outside.next char else reader.sequence
      showing := Sequence.outside.shows char }
  else
    { sequence := reader.sequence.next char
      showing := reader.sequence.shows char }

def Reader.shown (reader : Reader) : List Char → List Char
  | [] => []
  | char :: rest =>
    let after := reader.next char
    if after.showing then char :: after.shown rest else after.shown rest

def plain (text : String) : String :=
  String.ofList (Reader.shown {} text.toList)

end WaveDump.Text.Terminal
