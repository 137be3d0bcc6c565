/-!
# SHA-256

The secure hash of 256 bits: a message is padded to whole blocks of 64 bytes, and every block is
mixed into eight words of state in 64 rounds. A message that comes in pieces is hashed as it comes,
as far as its bytes fill blocks.
-/

namespace WaveDump.Sha256

structure State where
  a : UInt32
  b : UInt32
  c : UInt32
  d : UInt32
  e : UInt32
  f : UInt32
  g : UInt32
  h : UInt32
deriving DecidableEq, Repr

/-- The state before the first block: fractional parts of square roots of primes. -/
def State.initial : State :=
  ⟨0x6a09e667, 0xbb67ae85, 0x3c6ef372, 0xa54ff53a, 0x510e527f, 0x9b05688c, 0x1f83d9ab, 0x5be0cd19⟩

/-- The constants of the rounds: fractional parts of cube roots of primes. -/
def roundConstants : List UInt32 :=
  [0x428a2f98, 0x71374491, 0xb5c0fbcf, 0xe9b5dba5, 0x3956c25b, 0x59f111f1, 0x923f82a4, 0xab1c5ed5,
   0xd807aa98, 0x12835b01, 0x243185be, 0x550c7dc3, 0x72be5d74, 0x80deb1fe, 0x9bdc06a7, 0xc19bf174,
   0xe49b69c1, 0xefbe4786, 0x0fc19dc6, 0x240ca1cc, 0x2de92c6f, 0x4a7484aa, 0x5cb0a9dc, 0x76f988da,
   0x983e5152, 0xa831c66d, 0xb00327c8, 0xbf597fc7, 0xc6e00bf3, 0xd5a79147, 0x06ca6351, 0x14292967,
   0x27b70a85, 0x2e1b2138, 0x4d2c6dfc, 0x53380d13, 0x650a7354, 0x766a0abb, 0x81c2c92e, 0x92722c85,
   0xa2bfe8a1, 0xa81a664b, 0xc24b8b70, 0xc76c51a3, 0xd192e819, 0xd6990624, 0xf40e3585, 0x106aa070,
   0x19a4c116, 0x1e376c08, 0x2748774c, 0x34b0bcb5, 0x391c0cb3, 0x4ed8aa4a, 0x5b9cca4f, 0x682e6ff3,
   0x748f82ee, 0x78a5636f, 0x84c87814, 0x8cc70208, 0x90befffa, 0xa4506ceb, 0xbef9a3f7, 0xc67178f2]

/-- Rotation to the right by a number of places between 1 and 31. -/
def rotate (word places : UInt32) : UInt32 :=
  (word >>> places) ||| (word <<< (32 - places))

def State.round (state : State) (constant word : UInt32) : State :=
  let mixE := rotate state.e 6 ^^^ rotate state.e 11 ^^^ rotate state.e 25
  let choice := (state.e &&& state.f) ^^^ (~~~state.e &&& state.g)
  let first := state.h + mixE + choice + constant + word
  let mixA := rotate state.a 2 ^^^ rotate state.a 13 ^^^ rotate state.a 22
  let majority := (state.a &&& state.b) ^^^ (state.a &&& state.c) ^^^ (state.b &&& state.c)
  { a := first + mixA + majority, b := state.a, c := state.b, d := state.c
    e := state.d + first, f := state.e, g := state.f, h := state.g }

def wordOf (bytes : List UInt8) : UInt32 :=
  bytes.foldl (fun word byte => (word <<< 8) ||| byte.toUInt32) 0

def schedule (block : List UInt8) : List UInt32 :=
  let words := (List.range 16).map fun index => wordOf ((block.drop (4 * index)).take 4)
  let stretched := (List.range 48).foldl
    (fun (words : Array UInt32) index =>
      let early := words.getD (index + 1) 0
      let late := words.getD (index + 14) 0
      let mixEarly := rotate early 7 ^^^ rotate early 18 ^^^ (early >>> 3)
      let mixLate := rotate late 17 ^^^ rotate late 19 ^^^ (late >>> 10)
      words.push (words.getD index 0 + mixEarly + words.getD (index + 9) 0 + mixLate))
    words.toArray
  stretched.toList

def State.absorb (state : State) (block : List UInt8) : State :=
  let mixed := (roundConstants.zip (schedule block)).foldl
    (fun state (constant, word) => state.round constant word) state
  { a := state.a + mixed.a, b := state.b + mixed.b, c := state.c + mixed.c, d := state.d + mixed.d
    e := state.e + mixed.e, f := state.f + mixed.f, g := state.g + mixed.g, h := state.h + mixed.h }

def State.absorbBlocks (state : State) : Nat → List UInt8 → State
  | 0, _ => state
  | count + 1, message => (state.absorb (message.take 64)).absorbBlocks count (message.drop 64)

def bigEndian (width value : Nat) : List UInt8 :=
  (List.range width).reverse.map fun place => UInt8.ofNat (value >>> (8 * place))

/-- What fills a message of some length up to whole blocks: a one bit, zero bits and the length in
bits. -/
def padding (length : Nat) : List UInt8 :=
  0x80 :: (List.replicate ((119 - length % 64) % 64) 0 ++ bigEndian 8 (8 * length))

def State.bytes (state : State) : List UInt8 :=
  [state.a, state.b, state.c, state.d, state.e, state.f, state.g, state.h].flatMap
    fun word => bigEndian 4 word.toNat

def digest (message : List UInt8) : List UInt8 :=
  let padded := message ++ padding message.length
  (State.initial.absorbBlocks (padded.length / 64) padded).bytes

/-! ## Messages in pieces -/

/-- The hash of the beginning of a message. The bytes that fill no block yet are pending. -/
@[ext]
structure Hasher where
  state : State := .initial
  pending : List UInt8 := []
  length : Nat := 0
  pending_lt : pending.length < 64 := by decide
deriving Repr

namespace Hasher

def initial : Hasher := {}

def update (hasher : Hasher) (bytes : List UInt8) : Hasher where
  state := hasher.state.absorbBlocks ((hasher.pending ++ bytes).length / 64)
    (hasher.pending ++ bytes)
  pending := (hasher.pending ++ bytes).drop (64 * ((hasher.pending ++ bytes).length / 64))
  length := hasher.length + bytes.length
  pending_lt := by
    rw [List.length_drop]
    omega

def finish (hasher : Hasher) : List UInt8 :=
  let last := hasher.pending ++ padding hasher.length
  (hasher.state.absorbBlocks (last.length / 64) last).bytes

end Hasher

end WaveDump.Sha256
