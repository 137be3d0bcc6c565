import WaveDump.CommandLine.Argument
import WaveDump.Conversion.File
import WaveDump.Text.Json
import WaveDump.Text.Terminal

/-!
# Reports

What the program tells about its work: log lines, the list of probes, the result of a conversion and
the configuration, as lines of text or as JSON.
-/

namespace WaveDump.CommandLine

def line (text : String) : String :=
  text ++ "\n"

def notice (text : String) : String :=
  line ("logic2vcd: " ++ text)

/-- The line of a log entry, as it is shown away from a terminal. The severity is brought to five
characters, and further lines of the text are moved in by four. -/
def logLine (entry : LogEntry) : String :=
  let label := entry.severity.label
  let filler := String.ofList (List.replicate (5 - label.length) ' ')
  let text := String.ofList <| entry.text.toList.flatMap fun char =>
    if char = '\n' then "\n    ".toList else [char]
  Text.Terminal.plain (line ("[" ++ label ++ filler ++ "] " ++ text))

def logLines (limit : Severity) (log : Log) : String :=
  String.join ((log.upTo limit).map logLine)

/-- What standard error shows of a history: the lines of its log, as far as they are on show, and
the texts that were sent to standard error. -/
def historyText (limit : Severity) (history : History) : String :=
  String.join <| history.map fun event =>
    match event with
    | .told entry => logLines limit [entry]
    | .sent .standardError bytes => (String.fromUTF8? bytes.toByteArray).getD ""
    | .sent _ _ => ""

open Text in
def jsonLines (fields : List (String × Json)) : String :=
  line ((Json.ofFields fields).render 0)

/-! ## Probes -/

/-- The line of a probe: symbol, width, name, and its bits with the bits of the sample they show. -/
def probeLine (probe : Probe) : String :=
  let width := probe.width.repr
  let filler := String.ofList (List.replicate (3 - width.length) ' ')
  let bits := probe.bits.map fun placement => placement.bit.repr ++ "@" ++ placement.sample.repr
  line (probe.symbol.toString ++ " " ++ filler ++ width ++ " " ++ probe.name ++ " [" ++
    " ".intercalate bits ++ "]")

def probeLines (capture : Capture) (registry : Registry) : String :=
  let rate :=
    match capture.rate with
    | some rate => line ("# sample rate: " ++ SampleRate.render rate)
    | none => ""
  rate ++ String.join (registry.probes.map probeLine)

open Text in
def probeJson (probe : Probe) : Json :=
  .ofFields
    [("symbol", .text probe.symbol.toString),
     ("name", .text probe.name),
     ("width", .number probe.width),
     ("vector", .bool probe.isVector),
     ("bits", .array <| probe.bits.map fun placement =>
        .array [.number placement.bit, .number placement.sample])]

open Text in
def probesJson (capture : Capture) (registry : Registry) : String :=
  jsonLines
    [("command", .text "probes"),
     ("channels", .number capture.channels.length),
     ("enabled", .number capture.enabledChannels),
     ("sample_rate", .ofOption .number capture.rate),
     ("probes", .array (registry.probes.map probeJson))]

/-! ## Conversions -/

/-- The line that tells about a conversion; the last size is named by what it measures. -/
def conversionLine (inputSize : Nat) (dump : EncoderStatistics) (sizeName : String) (size : Nat) :
    String :=
  notice ("input size: " ++ inputSize.repr ++ ", samples: " ++ dump.samplesIn.repr ++
    ", changes: " ++ dump.samplesEmitted.repr ++ ", " ++ sizeName ++ ": " ++ size.repr)

open Text in
def conversionFields (inputSize : Nat) (dump : EncoderStatistics) : List (String × Json) :=
  [("command", .text "convert"),
   ("input_size", .number inputSize),
   ("vcd_size", .number dump.bytesOut),
   ("samples", .number dump.samplesIn),
   ("samples_emitted", .number dump.samplesEmitted),
   ("probes", .number dump.probes)]

def fileLine (statistics : FileStatistics) : String :=
  conversionLine statistics.inputSize statistics.dump "output size" statistics.outputSize

def fileJson (statistics : FileStatistics) : String :=
  jsonLines <|
    conversionFields statistics.inputSize statistics.dump ++
      [("output_size", .number statistics.outputSize),
       ("sha256", .text (Text.hex statistics.sha256))]

def streamLine (stream : StreamStatistics) (dump : EncoderStatistics) : String :=
  conversionLine stream.bytesIn dump "vcd size" dump.bytesOut

def streamJson (stream : StreamStatistics) (dump : EncoderStatistics) : String :=
  jsonLines <|
    conversionFields stream.bytesIn dump ++ [("trailing_bytes", .number stream.trailingBytes)]

end WaveDump.CommandLine
