import WaveDump.Conversion.Storage
import WaveDump.Directory

/-!
# Converting a file

A capture file is converted into a dump file, plain or compressed. The configuration is checked and
the input opened before the output is created, so a conversion that cannot start touches no file.
The statistics describe the text of the dump whether or not the file holds it compressed, and the
text is hashed while it is written.
-/

namespace WaveDump

structure FileStatistics where
  /-- Size of the capture when it was opened. -/
  inputSize : Nat
  /-- Size of the dump file, as it is stored. -/
  outputSize : Nat
  dump : EncoderStatistics
  sha256 : List UInt8
deriving DecidableEq, Repr

/-- How the conversion of a file ended, and the directory after it. -/
structure FileReport where
  result : Except ConversionError FileStatistics
  directory : Directory
  history : History
deriving Repr

/-- Converts the capture at the path `input` into a dump at the path `output`. What the calls do
that write to the output is given by `writes`, and what those do that hand the text to a compressor
by `takes`; the calls after them take everything. -/
def convertFile (directory : Directory) (input output : String) (capture : Capture)
    (options : EncoderOptions) (compression : Compression) (writes takes : List Response := []) :
    FileReport :=
  match Encoder.create capture options with
  | (.error error, log) =>
    { result := .error (.config error), directory, history := .telling log }
  | (.ok encoder, log) =>
    match directory.openInput input with
    | .error failure => { result := .error (.io failure), directory, history := .telling log }
    | .ok opened =>
      match directory.create output with
      | .error failure => { result := .error (.io failure), directory, history := .telling log }
      | .ok (target, created) =>
        let storage :=
          convertAndStore compression encoder (created.source opened blockSize)
            { target.sink blockSize with script := writes, hasher := some .initial } takes
        let final := created.close target storage.stored
        let history := .telling log ++ storage.history target
        match storage.result with
        | .error error => { result := .error error, directory := final, history }
        | .ok _ =>
          let statistics := storage.encoder.statistics
          let converted : LogEntry :=
            { severity := .debug
              text :=
                "converted " ++ input ++ " -> " ++ output ++ ": " ++ statistics.samplesIn.repr ++
                  " samples, " ++ statistics.bytesOut.repr ++ " bytes of VCD" }
          { result := .ok
              { inputSize := directory.inputSize opened
                outputSize := final.outputSize target
                dump := statistics
                sha256 := storage.digest }
            directory := final
            history := history ++ .telling [storage.encoder.finishReport, converted] }

end WaveDump
