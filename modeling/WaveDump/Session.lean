import WaveDump.Encoder
import WaveDump.Packet

/-!
# Output sessions

A session is what an acquisition front end holds: it is started for a capture, receives packets and
is ended again, any number of times. A call that comes at the wrong time, or that fails, leaves the
session as it was.
-/

namespace WaveDump

inductive SessionError where
  | notInitialized
  | alreadyInitialized
  | config (error : ConfigError)
  | encode (error : EncodeError)
deriving DecidableEq, Repr

def SessionError.message : SessionError → String
  | .notInitialized => "output session is not initialized"
  | .alreadyInitialized => "output session is already initialized"
  | .config error => "configuration error: " ++ error.message
  | .encode error => "encode error: " ++ error.message

structure Session where
  encoder : Option Encoder := none
deriving Repr

structure SessionReport (Result : Type) where
  result : Except SessionError Result
  session : Session
  log : Log := []
deriving Repr

namespace Session

def isActive (session : Session) : Bool :=
  session.encoder.isSome

def start (session : Session) (capture : Capture) (options : EncoderOptions) :
    SessionReport Unit :=
  match session.encoder with
  | some _ => { result := .error .alreadyInitialized, session }
  | none =>
    match Encoder.create capture options with
    | (.ok encoder, log) => { result := .ok (), session := { encoder := some encoder }, log }
    | (.error error, log) => { result := .error (.config error), session, log }

/-- Receives a packet. A logic packet returns its text, any other packet nothing. -/
def receive (session : Session) (packet : Packet) : SessionReport (Option String) :=
  match session.encoder with
  | none => { result := .error .notInitialized, session }
  | some encoder =>
    match packet with
    | .logic data unitSize =>
      match encoder.encode data unitSize with
      | .ok emission =>
        { result := .ok (some emission.text)
          session := { encoder := some emission.encoder }
          log := emission.log }
      | .error error => { result := .error (.encode error), session }
    | ignored =>
      { result := .ok none
        session
        log := [{ severity := .debug, text := "ignoring " ++ ignored.kind ++ " packet" }] }

def finish (session : Session) : SessionReport EncoderStatistics :=
  match session.encoder with
  | none => { result := .error .notInitialized, session }
  | some encoder =>
    { result := .ok encoder.statistics, session := {}, log := [encoder.finishReport] }

end Session

end WaveDump
