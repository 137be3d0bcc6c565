import WaveDump.Text.Number

/-!
# Channels and vector bit names

A channel named `base<n>` carries bit `n` of the vector `base`; a channel with any other name
stands for itself. The bracketed index is anchored at the end of the name, so only the last one
counts, and a base may itself look like a vector bit.
-/

namespace WaveDump

/-- A physical channel as the acquisition reports it. Its bit in a sample is its place in the
channel list, also when it is not enabled. -/
structure Channel where
  name : String
  enabled : Bool := true
deriving DecidableEq, Repr

structure VectorBit where
  base : String
  bit : Nat
deriving DecidableEq, Repr

namespace VectorBit

def indexBound : Nat := 0x100000000

/-- Splits a reversed name at its trailing index: the digits in reading order and the reversed
rest. -/
def splitIndex (reversed : List Char) : List Char × List Char :=
  let isDigit := fun char => (Text.digitValue? char).isSome
  ((reversed.takeWhile isDigit).reverse, reversed.dropWhile isDigit)

/-- The vector bit that a name spells: a base that is not empty, and decimal digits between angle
brackets at the very end, whose value is below the index bound. -/
def ofName? (name : String) : Option VectorBit :=
  match name.toList.reverse with
  | '>' :: body =>
    match splitIndex body with
    | (digits, '<' :: base) =>
      if digits.isEmpty || base.isEmpty then
        none
      else
        match Text.readDigits (indexBound - 1) .tooLarge 0 digits with
        | .ok bit => some { base := String.ofList base.reverse, bit }
        | .error _ => none
    | _ => none
  | _ => none

end VectorBit

end WaveDump
