import WaveDump.Text.Blank

/-!
# Calendar dates with a time of day

Moments of the proleptic Gregorian calendar, the line that a dump shows for one, and the reader for
the form `YYYY-MM-DD HH:MM:SS`. The reader takes the fields from left to right; a month, day, hour,
minute or second out of its range is reported where it stands, a day that the month does not have
only once the whole text has been read.
-/

namespace WaveDump

/-- A date and a time of day. The second is 60 in a leap second. -/
structure Moment where
  year : Int
  month : Nat
  day : Nat
  hour : Nat
  minute : Nat
  second : Nat
deriving DecidableEq, Repr

inductive MomentError where
  | invalid
  | premature
  | trailing
  | outOfRange
deriving DecidableEq, Repr

def MomentError.message : MomentError → String
  | .invalid => "input contains invalid characters"
  | .premature => "premature end of input"
  | .trailing => "trailing input"
  | .outOfRange => "input is out of range"

namespace Moment

/-- Days from the first of March of year zero to a date. Years are taken to begin in March, so that
a leap day is the last of its year. -/
def dayNumber (year : Int) (month day : Nat) : Int :=
  let marchYear := if month ≤ 2 then year - 1 else year
  let monthFromMarch := (month + 9) % 12
  365 * marchYear + marchYear.fdiv 4 - marchYear.fdiv 100 + marchYear.fdiv 400 +
    Int.ofNat ((153 * monthFromMarch + 2) / 5) + Int.ofNat day - 1

def weekday (moment : Moment) : Nat :=
  ((dayNumber moment.year moment.month moment.day + 3) % 7).toNat

def weekdayNames : List String :=
  ["Sun", "Mon", "Tue", "Wed", "Thu", "Fri", "Sat"]

def monthNames : List String :=
  ["Jan", "Feb", "Mar", "Apr", "May", "Jun", "Jul", "Aug", "Sep", "Oct", "Nov", "Dec"]

def padded (filler : Char) (width value : Nat) : String :=
  let digits := value.repr
  String.ofList (List.replicate (width - digits.length) filler) ++ digits

/-- The year with at least four digits, and with a sign when it has none of the years 0 to 9999. -/
def yearText (year : Int) : String :=
  if year < 0 then "-" ++ padded '0' 4 year.natAbs
  else if 9999 < year then "+" ++ padded '0' 4 year.natAbs
  else padded '0' 4 year.natAbs

/-- Weekday, month, day, time and year, as in `Mon Mar  4 09:05:07 2013`. -/
def render (moment : Moment) : String :=
  weekdayNames.getD moment.weekday "" ++ " " ++ monthNames.getD (moment.month - 1) "" ++ " " ++
    padded ' ' 2 moment.day ++ " " ++ padded '0' 2 moment.hour ++ ":" ++
    padded '0' 2 moment.minute ++ ":" ++ padded '0' 2 moment.second ++ " " ++ yearText moment.year

def isLeap (year : Int) : Bool :=
  year % 4 == 0 && (year % 100 != 0 || year % 400 == 0)

def daysIn (year : Int) (month : Nat) : Nat :=
  match month with
  | 2 => if isLeap year then 29 else 28
  | 4 | 6 | 9 | 11 => 30
  | _ => 31

def supportsYear (year : Int) : Bool :=
  -262143 ≤ year && year ≤ 262142

/-! ## Reading -/

def fieldBound : Nat := 0x7FFFFFFFFFFFFFFF

/-- Continues the number `value` with at most `limit` digits and returns the rest of the text. -/
def readDigits (value : Nat) : Nat → List Char → Except MomentError (Nat × List Char)
  | 0, text => .ok (value, text)
  | _, [] => .ok (value, [])
  | limit + 1, char :: rest =>
    if char.isDigit then
      let next := value * 10 + (char.toNat - '0'.toNat)
      if next ≤ fieldBound then readDigits next limit rest else .error .outOfRange
    else
      .ok (value, char :: rest)

def readNumber (limit : Nat) : List Char → Except MomentError (Nat × List Char)
  | [] => .error .premature
  | char :: rest => if char.isDigit then readDigits 0 limit (char :: rest) else .error .invalid

/-- Reads a number of one or two digits in a range, after white space. -/
def readField (low high : Nat) (text : List Char) : Except MomentError (Nat × List Char) := do
  let (value, rest) ← readNumber 2 (Text.trimStart text)
  if low ≤ value && value ≤ high then .ok (value, rest) else .error .outOfRange

/-- Reads a year after white space: up to four digits, or a sign and any number of digits. -/
def readYear (text : List Char) : Except MomentError (Int × List Char) := do
  let (value, rest) ←
    match Text.trimStart text with
    | '-' :: digits =>
      (readNumber digits.length digits).map fun (size, rest) => (-(size : Int), rest)
    | '+' :: digits =>
      (readNumber digits.length digits).map fun (size, rest) => ((size : Int), rest)
    | digits => (readNumber 4 digits).map fun (size, rest) => ((size : Int), rest)
  if -0x80000000 ≤ value && value < 0x80000000 then .ok (value, rest) else .error .outOfRange

def expect (mark : Char) : List Char → Except MomentError (List Char)
  | [] => .error .premature
  | char :: rest => if char = mark then .ok rest else .error .invalid

/-- Reads a whole text of the form `YYYY-MM-DD HH:MM:SS`. Numbers may follow white space, and any
white space or none separates the date from the time. -/
def read (text : String) : Except MomentError Moment := do
  let (year, rest) ← readYear (Text.trim text.toList)
  let rest ← expect '-' rest
  let (month, rest) ← readField 1 12 rest
  let rest ← expect '-' rest
  let (day, rest) ← readField 1 31 rest
  let (hour, rest) ← readField 0 23 rest
  let rest ← expect ':' rest
  let (minute, rest) ← readField 0 59 rest
  let rest ← expect ':' rest
  let (second, rest) ← readField 0 60 rest
  if !rest.isEmpty then
    .error .trailing
  else if supportsYear year && day ≤ daysIn year month then
    .ok { year, month, day, hour, minute, second }
  else
    .error .outOfRange

end Moment

end WaveDump
