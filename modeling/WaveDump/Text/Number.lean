/-!
# Decimal numbers in text

Reading a decimal integer into a bounded range. The digits are taken from left to right: at each
place a character that is no digit is reported before a value that has grown too large, so the
first fault in the text decides which error is reported.
-/

namespace WaveDump.Text

inductive NumberError where
  | empty
  | invalidDigit
  | tooLarge
  | tooSmall
deriving DecidableEq, Repr

def NumberError.message : NumberError → String
  | .empty => "cannot parse integer from empty string"
  | .invalidDigit => "invalid digit found in string"
  | .tooLarge => "number too large to fit in target type"
  | .tooSmall => "number too small to fit in target type"

def digitValue? (char : Char) : Option Nat :=
  if '0' ≤ char ∧ char ≤ '9' then some (char.toNat - '0'.toNat) else none

/-- Continues the number `value` with digits, as long as it stays within `bound`; a value that
leaves the bound is reported as `overflow`. -/
def readDigits (bound : Nat) (overflow : NumberError) (value : Nat) :
    List Char → Except NumberError Nat
  | [] => .ok value
  | char :: rest =>
    match digitValue? char with
    | none => .error .invalidDigit
    | some digit =>
      if value * 10 + digit ≤ bound then
        readDigits bound overflow (value * 10 + digit) rest
      else
        .error overflow

/-- Reads a natural number of at most `bound`, with an optional plus sign. -/
def readNat (bound : Nat) : List Char → Except NumberError Nat
  | [] => .error .empty
  | ['+'] => .error .invalidDigit
  | '+' :: digits => readDigits bound .tooLarge 0 digits
  | digits => readDigits bound .tooLarge 0 digits

/-- Reads an integer from `-(bound + 1)` to `bound`, with an optional sign. -/
def readInt (bound : Nat) : List Char → Except NumberError Int
  | ['-'] => .error .invalidDigit
  | '-' :: digits => (readDigits (bound + 1) .tooSmall 0 digits).map fun value => -(value : Int)
  | text => (readNat bound text).map Int.ofNat

end WaveDump.Text
