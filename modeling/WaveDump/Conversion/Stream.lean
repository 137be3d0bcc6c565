import WaveDump.Encoder
import WaveDump.Stream.Sink
import WaveDump.Stream.Source

/-!
# Converting a stream

A capture is read through a buffer whose size is a whole number of samples. After every read the
whole samples in the buffer are encoded and written, and the bytes of a sample that is not complete
are carried over; so no sample is split between frames and the buffer always has room for a read.
Bytes left over at the end of the input are dropped with a warning. The header is written even if
the capture has no sample.
-/

namespace WaveDump

/-- How an encoded frame reached a sink: the number of bytes written, or what went wrong. The
encoder has taken the frame in both cases. -/
structure WriteReport where
  result : Except EncodeError Nat
  encoder : Encoder
  sink : Sink
  log : Log
deriving Repr

def Encoder.encodeTo (encoder : Encoder) (sink : Sink) (frame : List UInt8) (stride : Nat) :
    WriteReport :=
  match encoder.encode frame stride with
  | .error error => { result := .error error, encoder, sink, log := [] }
  | .ok emission =>
    let (written, after) := sink.writeAll emission.text.toUTF8.data.toList
    { result :=
        match written with
        | .ok () => .ok emission.text.utf8ByteSize
        | .error failure => .error (.io failure)
      encoder := emission.encoder
      sink := after
      log := emission.log }

inductive ConversionError where
  | io (failure : Failure)
  | config (error : ConfigError)
  | encode (error : EncodeError)
deriving DecidableEq, Repr

def ConversionError.message : ConversionError → String
  | .io failure => "I/O error: " ++ failure.text
  | .config error => "configuration error: " ++ error.message
  | .encode error => "encode error: " ++ error.message

structure StreamStatistics where
  bytesIn : Nat
  bytesOut : Nat
  /-- Bytes at the end that fill no sample. -/
  trailingBytes : Nat
deriving DecidableEq, Repr

/-- How the conversion of a stream ended, and what is left of everything that took part in it. -/
structure StreamReport where
  result : Except ConversionError StreamStatistics
  encoder : Encoder
  source : Source
  sink : Sink
  /-- What was told while frames were encoded. -/
  log : Log
  /-- What was told after everything had been written. -/
  ending : Log := []
  /-- The sizes of the texts that were written, in order. -/
  pieces : List Nat
deriving Repr

structure StreamProgress where
  encoder : Encoder
  sink : Sink
  /-- Bytes of a sample that is not complete. -/
  carried : List UInt8 := []
  bytesIn : Nat := 0
  /-- The sizes of the texts that have been written, the last one first. -/
  pieces : List Nat := []
  log : Log := []
deriving Repr

namespace StreamProgress

def bytesOut (progress : StreamProgress) : Nat :=
  progress.pieces.foldr (· + ·) 0

def close (progress : StreamProgress) (source : Source)
    (result : Except ConversionError StreamStatistics) : StreamReport where
  result := result
  encoder := progress.encoder
  source := source
  sink := progress.sink
  log := progress.log
  pieces := progress.pieces.reverse

def write (progress : StreamProgress) (frame : List UInt8) (stride : Nat) :
    StreamProgress × Option EncodeError :=
  let report := progress.encoder.encodeTo progress.sink frame stride
  let after :=
    { progress with
        encoder := report.encoder, sink := report.sink, log := progress.log ++ report.log }
  match report.result with
  | .ok count => ({ after with pieces := count :: progress.pieces }, none)
  | .error error => (after, some error)

/-- Takes bytes that were read: the whole samples are written, the rest is carried over. -/
def receive (progress : StreamProgress) (piece : List UInt8) (stride : Nat) :
    StreamProgress × Option EncodeError :=
  let bytes := progress.carried ++ piece
  let whole := bytes.length - bytes.length % stride
  let received :=
    { progress with
        carried := bytes.drop whole, bytesIn := progress.bytesIn + piece.length }
  if whole = 0 then (received, none) else received.write (bytes.take whole) stride

def finish (progress : StreamProgress) (source : Source) (stride : Nat) : StreamReport :=
  let (headed, error) :=
    if progress.encoder.headerPending then progress.write [] stride else (progress, none)
  match error with
  | some error => headed.close source (.error (.encode error))
  | none =>
    let trailing := headed.carried.length
    let warning : Log :=
      if trailing = 0 then
        []
      else
        [{ severity := .warning
           text :=
            "ignoring " ++ trailing.repr ++ " trailing bytes (unit size " ++ stride.repr ++ ")" }]
    { headed.close source
        (.ok { bytesIn := headed.bytesIn, bytesOut := headed.bytesOut, trailingBytes := trailing })
      with ending := warning }

end StreamProgress

def blockSize : Nat := 65536

/-- The size of the read buffer: the largest whole number of samples within a block, and at least
one sample. -/
def bufferSize (stride : Nat) : Nat :=
  max (blockSize / stride) 1 * stride

/-- Reads, encodes and writes until the input ends or something fails. -/
def pump (stride : Nat) (progress : StreamProgress) (source : Source) : StreamReport :=
  match delivered : source.read (bufferSize stride - progress.carried.length) with
  | (.bytes [], after) => progress.finish after stride
  | (.bytes (first :: rest), after) =>
    have _shorter := Source.remaining_lt_of_read delivered (by simp)
    match progress.receive (first :: rest) stride with
    | (received, none) => pump stride received after
    | (received, some error) => received.close after (.error (.encode error))
  | (.interrupted, after) =>
    have _shorter := Source.remaining_lt_of_read delivered (by simp)
    pump stride progress after
  | (.failed failure, after) => progress.close after (.error (.io failure))
termination_by source.remaining

def convertStream (encoder : Encoder) (source : Source) (sink : Sink) : StreamReport :=
  pump (max encoder.unitSize 1) { encoder, sink } source

end WaveDump
