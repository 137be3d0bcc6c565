import WaveDump.Text.Blank
import WaveDump.Text.Number
import WaveDump.Word

/-!
# Sample rates as text

A sample rate is a number of samples per second. It is printed in the largest unit that divides it
exactly, and read from a number with an optional scale letter and an optional `Hz`.
-/

namespace WaveDump

def kilohertz : Nat := 1000
def megahertz : Nat := 1000000
def gigahertz : Nat := 1000000000

inductive SampleRateError where
  /-- Nothing is left without white space and the unit. -/
  | empty
  /-- The number before the scale letter cannot be read. -/
  | invalid (text : String) (cause : Text.NumberError)
  /-- The scaled number has more than 64 bits. -/
  | overflow (text : String)
deriving DecidableEq, Repr

def SampleRateError.message : SampleRateError → String
  | .empty => "empty sample rate"
  | .invalid text cause => "invalid sample rate '" ++ text ++ "': " ++ cause.message
  | .overflow text => "sample rate overflow: '" ++ text ++ "'"

namespace SampleRate

/-- The units that rates are printed in besides hertz, the largest first. -/
def units : List (String × Nat) :=
  [("GHz", gigahertz), ("MHz", megahertz), ("kHz", kilohertz)]

/-- A rate in the largest unit that divides it exactly; zero is printed in hertz. -/
def render (rate : Nat) : String :=
  match units.find? fun unit => rate != 0 && rate % unit.2 == 0 with
  | some (name, size) => (rate / size).repr ++ " " ++ name
  | none => rate.repr ++ " Hz"

def scale? : Char → Option Nat
  | 'k' | 'K' => some kilohertz
  | 'm' | 'M' => some megahertz
  | 'g' | 'G' => some gigahertz
  | _ => none

def dropHertz (text : List Char) : List Char :=
  match text.reverse with
  | 'z' :: 'H' :: rest | 'z' :: 'h' :: rest => rest.reverse
  | _ => text

/-- Splits a text into its number and the factor of its scale letter. -/
def splitScale (text : List Char) : List Char × Nat :=
  match text.reverse with
  | [] => ([], 1)
  | last :: front =>
    match scale? last with
    | some factor => (front.reverse, factor)
    | none => (text, 1)

/-- Reads a rate: a number, a scale letter if any and `Hz` if any, with white space between and
around them. -/
def read (text : String) : Except SampleRateError Nat :=
  let body := Text.trimEnd (dropHertz (Text.trim text.toList))
  if body.isEmpty then
    .error .empty
  else
    let (digits, factor) := splitScale body
    match Text.readNat maxWord (Text.trim digits) with
    | .error cause => .error (.invalid (String.ofList body) cause)
    | .ok value =>
      if value * factor ≤ maxWord then
        .ok (value * factor)
      else
        .error (.overflow (String.ofList body))

end SampleRate

end WaveDump
