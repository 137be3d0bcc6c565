import WaveDump.Digest.Sha256
import WaveDump.Stream.Transfer

/-!
# Sinks

A sink takes bytes piece by piece. Its script says what the next calls do; after the script every
call takes as much as there is room for. Writing a whole buffer calls the sink until it has taken
everything, again after an interruption, and gives up at the first failure or when a call takes
nothing. A sink may write behind: it then collects bytes and passes them on when a block is full, so
that a failure shows up late, at the latest when the sink is flushed. A sink may also hash what is
written: of every call it then hashes the bytes that the call has taken.
-/

namespace WaveDump

inductive Acceptance where
  | took (count : Nat)
  | interrupted
  | failed (failure : Failure)
deriving DecidableEq, Repr

structure Sink where
  script : List Response := []
  /-- How many bytes there is room for, if it is limited. -/
  room : Option Nat := none
  /-- How a call fails that cannot take anything; without a failure it returns that it took
  nothing. -/
  refusal : Option Failure := none
  taken : Array UInt8 := #[]
  /-- Size of the blocks that are collected, if any are. -/
  block : Option Nat := none
  /-- Bytes that have been collected and not passed on. -/
  held : Array UInt8 := #[]
  /-- The hash of what has been written, if it is hashed. -/
  hasher : Option Sha256.Hasher := none
deriving Repr

namespace Sink

def content (sink : Sink) : List UInt8 :=
  sink.taken.toList

/-- Everything that has been written: the bytes taken, then the bytes still held. -/
def written (sink : Sink) : List UInt8 :=
  sink.content ++ sink.held.toList

def upTo (limit : Option Nat) (bytes : List UInt8) : List UInt8 :=
  match limit with
  | none => bytes
  | some count => bytes.take count

/-- Takes the first bytes of a buffer, within the limit and the room left. -/
def accept (sink : Sink) (limit : Option Nat) (buffer : List UInt8) : Acceptance × Sink :=
  let piece := upTo limit (upTo sink.room buffer)
  if piece.isEmpty then
    match sink.refusal with
    | some failure => (.failed failure, sink)
    | none => (.took 0, sink)
  else
    (.took piece.length,
      { sink with
          room := sink.room.map fun room => room - piece.length
          taken := sink.taken ++ piece })

def write (sink : Sink) (buffer : List UInt8) : Acceptance × Sink :=
  match sink.script with
  | [] => sink.accept none buffer
  | .atMost limit :: rest => { sink with script := rest }.accept (some limit) buffer
  | .interrupted :: rest => (.interrupted, { sink with script := rest })
  | .fails failure :: rest => (.failed failure, { sink with script := rest })

theorem script_accept (sink : Sink) (limit : Option Nat) (buffer : List UInt8) :
    (sink.accept limit buffer).2.script = sink.script := by
  simp only [accept]
  split
  · split <;> rfl
  · rfl

theorem script_write (sink : Sink) (buffer : List UInt8) :
    (sink.write buffer).2.script = sink.script.tail := by
  unfold write
  split <;> rename_i scripted <;> simp [script_accept, scripted]

theorem script_ne_nil_of_interrupted (sink : Sink) (buffer : List UInt8)
    (interrupted : (sink.write buffer).1 = .interrupted) : sink.script ≠ [] := by
  intro finished
  simp only [write, finished, accept] at interrupted
  split at interrupted
  · split at interrupted <;> simp at interrupted
  · simp at interrupted

theorem script_write_lt (sink : Sink) (buffer : List UInt8)
    (interrupted : (sink.write buffer).1 = .interrupted) :
    (sink.write buffer).2.script.length < sink.script.length := by
  have positive := List.length_pos_iff.mpr (sink.script_ne_nil_of_interrupted buffer interrupted)
  rw [script_write, List.length_tail]
  omega

/-- A way to hand bytes to a sink. What it leaves of the script is not more than before, and less
if it is interrupted, so that it can be repeated until everything is taken. -/
structure Call where
  run : Sink → List UInt8 → Acceptance × Sink
  script_le (sink : Sink) (buffer : List UInt8) :
    (run sink buffer).2.script.length ≤ sink.script.length
  script_lt (sink : Sink) (buffer : List UInt8) (interrupted : (run sink buffer).1 = .interrupted) :
    (run sink buffer).2.script.length < sink.script.length

/-- Repeats a call until the sink has taken a whole buffer. -/
def Call.all (call : Call) (sink : Sink) (buffer : List UInt8) : Except Failure Unit × Sink :=
  if buffer.isEmpty then
    (.ok (), sink)
  else
    match called : call.run sink buffer with
    | (.took 0, after) => (.error .writeZero, after)
    | (.took (count + 1), after) => call.all after (buffer.drop (count + 1))
    | (.interrupted, after) => call.all after buffer
    | (.failed failure, after) => (.error failure, after)
termination_by buffer.length + sink.script.length
decreasing_by
  · rename_i nonempty
    have positive : buffer.length ≠ 0 := by simpa using nonempty
    have scriptAfter : after.script.length ≤ sink.script.length := by
      simpa only [called] using call.script_le sink buffer
    simp only [List.length_drop]
    omega
  · have scriptAfter : after.script.length < sink.script.length := by
      simpa only [called] using call.script_lt sink buffer (by rw [called])
    omega

theorem Call.script_all (call : Call) (sink : Sink) (buffer : List UInt8) :
    (call.all sink buffer).2.script.length ≤ sink.script.length := by
  fun_induction Call.all call sink buffer with
  | case1 sink buffer empty => exact Nat.le_refl _
  | case2 sink buffer nonempty after called =>
      simpa only [called] using call.script_le sink buffer
  | case3 sink buffer nonempty count after called ih =>
      have scriptAfter := call.script_le sink buffer
      rw [called] at scriptAfter
      exact Nat.le_trans ih scriptAfter
  | case4 sink buffer nonempty after called ih =>
      have scriptAfter := call.script_le sink buffer
      rw [called] at scriptAfter
      exact Nat.le_trans ih scriptAfter
  | case5 sink buffer nonempty failure after called =>
      simpa only [called] using call.script_le sink buffer

def passing : Call where
  run := write
  script_le sink buffer := by
    rw [script_write, List.length_tail]
    exact Nat.sub_le _ _
  script_lt := script_write_lt

def passAll (sink : Sink) (buffer : List UInt8) : Except Failure Unit × Sink :=
  passing.all sink buffer

/-! ## Writing behind -/

def hold (sink : Sink) (buffer : List UInt8) : Sink :=
  { sink with held := sink.held ++ buffer }

def flush (sink : Sink) : Except Failure Unit × Sink :=
  { sink with held := #[] }.passAll sink.held.toList

/-- Makes room for a buffer of the given length in a block, by a flush if it does not fit. -/
def makeRoom (sink : Sink) (size length : Nat) : Except Failure Unit × Sink :=
  if size < sink.held.size + length then sink.flush else (.ok (), sink)

/-- One call of a sink that may write behind: it collects a buffer that is smaller than a block,
after a flush if there is no room for it; otherwise a single call passes on what it can. -/
def offer (sink : Sink) (buffer : List UInt8) : Acceptance × Sink :=
  match sink.block with
  | none => sink.write buffer
  | some size =>
    match sink.makeRoom size buffer.length with
    | (.error failure, after) => (.failed failure, after)
    | (.ok (), after) =>
      if buffer.length < size then (.took buffer.length, after.hold buffer) else after.write buffer

theorem script_makeRoom (sink : Sink) (size length : Nat) :
    (sink.makeRoom size length).2.script.length ≤ sink.script.length := by
  unfold makeRoom
  split
  · exact passing.script_all _ _
  · exact Nat.le_refl _

theorem script_offer_le (sink : Sink) (buffer : List UInt8) :
    (sink.offer buffer).2.script.length ≤ sink.script.length := by
  unfold offer
  split
  · exact passing.script_le sink buffer
  · rename_i size _
    have made := sink.script_makeRoom size buffer.length
    split <;> rename_i outcome <;> rw [outcome] at made
    · exact made
    · split
      · exact made
      · exact Nat.le_trans (passing.script_le _ _) made

theorem script_offer_lt (sink : Sink) (buffer : List UInt8)
    (interrupted : (sink.offer buffer).1 = .interrupted) :
    (sink.offer buffer).2.script.length < sink.script.length := by
  unfold offer at interrupted ⊢
  split at interrupted
  · exact sink.script_write_lt buffer interrupted
  · rename_i size _
    have made := sink.script_makeRoom size buffer.length
    split at interrupted <;> rename_i outcome <;> simp only [outcome] at made ⊢
    · simp at interrupted
    · split at interrupted <;> rename_i fits <;> simp only [fits, ↓reduceIte] at interrupted ⊢
      · simp at interrupted
      · exact Nat.lt_of_lt_of_le (script_write_lt _ buffer interrupted) made

/-! ## Hashing -/

def hash (sink : Sink) (bytes : List UInt8) : Sink :=
  { sink with hasher := sink.hasher.map (·.update bytes) }

/-- The digest of everything that was hashed. -/
def digest (sink : Sink) : List UInt8 :=
  (sink.hasher.getD .initial).finish

/-- Offers a buffer and hashes what of it was taken. -/
def offerHashed (sink : Sink) (buffer : List UInt8) : Acceptance × Sink :=
  match sink.offer buffer with
  | (.took count, after) => (.took count, after.hash (buffer.take count))
  | (.interrupted, after) => (.interrupted, after)
  | (.failed failure, after) => (.failed failure, after)

def hashing : Call where
  run := offerHashed
  script_le sink buffer := by
    have offered := sink.script_offer_le buffer
    unfold offerHashed
    split <;> rename_i outcome <;> rwa [outcome] at offered
  script_lt sink buffer := by
    have offered := sink.script_offer_lt buffer
    unfold offerHashed
    split <;> rename_i outcome <;> rw [outcome] at offered
    · simp
    · exact offered
    · simp

/-! ## Writing whole buffers -/

/-- Writes a whole buffer. A sink that writes behind collects it if it is smaller than a block,
after a flush if there is no room for it; otherwise the buffer is passed on as it is. A sink that
hashes is offered the buffer until it has taken all of it. -/
def writeAll (sink : Sink) (buffer : List UInt8) : Except Failure Unit × Sink :=
  match sink.hasher, sink.block with
  | some _, _ => hashing.all sink buffer
  | none, none => sink.passAll buffer
  | none, some size =>
    match sink.makeRoom size buffer.length with
    | (.error failure, after) => (.error failure, after)
    | (.ok (), after) =>
      if buffer.length < size then (.ok (), after.hold buffer) else after.passAll buffer

def writeOut (sink : Sink) (buffer : List UInt8) : Except Failure Unit × Sink :=
  match sink.writeAll buffer with
  | (.error failure, after) => (.error failure, after)
  | (.ok (), after) => after.flush

end Sink

end WaveDump
