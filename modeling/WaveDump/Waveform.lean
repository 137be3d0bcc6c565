import WaveDump.Sample

/-!
# Value changes and blocks

The body of a dump is a sequence of blocks. A block opens with a time stamp and lists the values
that variables take at that time; the first block of a dump lists all variables between
`$dumpvars` and `$end`.
-/

namespace WaveDump

/-- The value of a variable. A place of a vector that no channel stands for has no level. -/
inductive Value where
  | scalar (level : Bool)
  | vector (places : List (Option Bool))
deriving DecidableEq, Repr

/-- The digit that a place of a vector shows: the level, or `x` for a place without one. -/
def placeDigit : Option Bool → Char
  | some level => levelDigit level
  | none => 'x'

structure ValueChange where
  symbol : Char
  value : Value
deriving DecidableEq, Repr

/-- The line of a value change: a scalar's level right before the symbol, a vector's places between
`b` and a blank. -/
def ValueChange.line (change : ValueChange) : String :=
  match change.value with
  | .scalar level => String.ofList [levelDigit level, change.symbol, '\n']
  | .vector places =>
    String.ofList ('b' :: (places.map placeDigit ++ [' ', change.symbol, '\n']))

structure Block where
  time : Nat
  /-- Whether this block lists the initial value of every variable. -/
  initial : Bool
  changes : List ValueChange
deriving DecidableEq, Repr

def Block.text (block : Block) : String :=
  let lines := String.join (block.changes.map ValueChange.line)
  "#" ++ block.time.repr ++ "\n" ++
    if block.initial then "$dumpvars\n" ++ lines ++ "$end\n" else lines

end WaveDump
