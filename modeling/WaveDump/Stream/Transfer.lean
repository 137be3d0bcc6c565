/-!
# Transfers and their failures

Reads and writes may move fewer bytes than asked, be interrupted or fail. A `Response` says what a
single call does; sources and sinks are driven by lists of them, which makes every behaviour of the
outside world a value.
-/

namespace WaveDump

/-- What kind of failure ended a transfer. An interruption is no failure: the call is made again. -/
inductive FailureKind where
  | notFound
  | isADirectory
  | notADirectory
  | nameTooLong
  | storageFull
  | writeZero
  | other (name : String)
deriving DecidableEq, Repr

structure Failure where
  kind : FailureKind
  text : String
deriving DecidableEq, Repr

namespace Failure

def notFound : Failure := ⟨.notFound, "No such file or directory (os error 2)"⟩

def notADirectory : Failure := ⟨.notADirectory, "Not a directory (os error 20)"⟩

def isADirectory : Failure := ⟨.isADirectory, "Is a directory (os error 21)"⟩

def nameTooLong : Failure := ⟨.nameTooLong, "File name too long (os error 36)"⟩

def storageFull : Failure := ⟨.storageFull, "No space left on device (os error 28)"⟩

def writeZero : Failure := ⟨.writeZero, "failed to write whole buffer"⟩

end Failure

inductive Response where
  /-- Moves bytes, but not more than `limit`. -/
  | atMost (limit : Nat)
  /-- Moves nothing and asks to be called again. -/
  | interrupted
  | fails (failure : Failure)
deriving DecidableEq, Repr

end WaveDump
