import WaveDump.Conversion.History
import WaveDump.Conversion.Stream
import WaveDump.Deflate.Compressor
import WaveDump.Gzip

/-!
# Storing a dump

A dump is stored plain or compressed. A sink that writes behind may show only at the end, when it is
flushed, that an output cannot take the dump; a conversion that went well has failed then. A dump
that was cut short by a failure is stored as far as it goes.
-/

namespace WaveDump

inductive Compression where
  | none
  | gzip (level : Nat)
deriving DecidableEq, Repr

structure StorageReport where
  result : Except ConversionError StreamStatistics
  encoder : Encoder
  /-- What was told while the dump was written. -/
  log : Log
  ending : Log
  /-- The digest of the text, if it was hashed. -/
  digest : List UInt8
  /-- The bytes that reached the output while the dump was written. -/
  early : List UInt8
  /-- The bytes that reached the output at the end. -/
  late : List UInt8
deriving Repr

namespace StorageReport

def stored (report : StorageReport) : List UInt8 :=
  report.early ++ report.late

def history (report : StorageReport) (output : Output) : History :=
  .telling report.log ++ .sending output report.early ++ .telling report.ending ++
    .sending output report.late

end StorageReport

/-- The report on a conversion whose dump was stored through a sink that ended as given, when some
bytes had reached it early. -/
def StreamReport.storedBy (report : StreamReport) (early : List UInt8)
    (ended : Except Failure Unit × Sink) : StorageReport where
  result :=
    match report.result, ended.1 with
    | .ok _, .error failure => .error (.io failure)
    | result, _ => result
  encoder := report.encoder
  log := report.log
  ending := report.ending
  digest := report.sink.digest
  early := early
  late := ended.2.content.drop early.length

def Sink.refusing? (sink : Sink) : Option Failure :=
  if sink.room = some 0 then sink.refusal else none

/-- Whether a sink has to pass on bytes when so many have been written. -/
def Sink.exceededBy (sink : Sink) (count : Nat) : Bool :=
  match sink.block with
  | none => 0 < count
  | some size => size < count

/-- The report on a conversion that was ended by a failure to write. -/
def StreamReport.refusedBy (report : StreamReport) (failure : Failure) : StorageReport where
  result := .error (.encode (.io failure))
  encoder := report.encoder
  log := report.log
  ending := []
  digest := report.sink.digest
  early := []
  late := []

/-- The failure that ends a conversion whose dump is compressed: a sink takes nothing, and more has
been handed out to it than it can hold. -/
def StreamReport.refusal? (report : StreamReport) (level : Nat) (sink : Sink) : Option Failure :=
  match sink.refusing? with
  | none => none
  | some failure =>
    if sink.exceededBy (Deflate.handedOut level report.sink.written report.pieces) then some failure
    else none

def StreamReport.compress (report : StreamReport) (level : Nat) (sink : Sink) : StorageReport :=
  match report.refusal? level sink with
  | some failure => report.refusedBy failure
  | none => report.storedBy [] (sink.writeOut (Gzip.compress level report.sink.written))

/-- Converts everything that a source hands out, stores the dump and flushes the sink. A compressor
takes the text in its own pieces, which the list `takes` gives, and a sink that hashes hashes the
text and not what the compressor makes of it. -/
def convertAndStore (compression : Compression) (encoder : Encoder) (source : Source)
    (sink : Sink) (takes : List Response := []) : StorageReport :=
  match compression with
  | .none =>
    let report := convertStream encoder source sink
    report.storedBy report.sink.content report.sink.flush
  | .gzip level =>
    (convertStream encoder source { script := takes, hasher := sink.hasher }).compress level
      { sink with hasher := none }

end WaveDump
