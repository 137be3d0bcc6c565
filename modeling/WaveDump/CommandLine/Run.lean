import WaveDump.CommandLine.Grammar
import WaveDump.CommandLine.Report

/-!
# Running a command line

A run takes the arguments, the bytes of standard input and a directory, and ends with an exit code,
what was written to standard output and standard error, and the directory as it is left.
-/

namespace WaveDump.CommandLine

def toolVersion : String := "0.1.0"

structure Environment where
  stdin : List UInt8 := []
  directory : Directory := {}
  /-- The date of dumps without a fixed date. -/
  now : Moment
deriving Repr

structure Outcome where
  exitCode : Nat := 0
  stdout : List UInt8 := []
  stderr : String := ""
  directory : Directory
deriving Repr

def Outcome.failure (directory : Directory) (stderr : String) : Outcome where
  exitCode := 1
  stderr := stderr
  directory := directory

def bytesOf (text : String) : List UInt8 :=
  text.toUTF8.data.toList

def Manner.limit (manner : Manner) : Severity :=
  if manner.quiet then .error
  else
    match manner.verbosity with
    | 0 => .warning
    | 1 => .info
    | _ => .debug

/-- The line of a conversion if it is wanted, and the JSON report if it is wanted. -/
def Manner.reports (manner : Manner) (summary json : String) : String :=
  (if 0 < manner.verbosity && !manner.quiet then summary else "") ++
    if manner.json then json else ""

/-! ## Listing probes and the configuration -/

def runProbes (selection : Selection) (manner : Manner) (environment : Environment) : Outcome :=
  let capture := selection.capture
  let directory := environment.directory
  match Registry.ofChannels capture.channels with
  | .error error => .failure directory (notice error.message)
  | .ok registry =>
    let listing :=
      if manner.json then probesJson capture registry else probeLines capture registry
    { stdout := bytesOf listing, stderr := logLines manner.limit [registry.report], directory }

def runConfig (environment : Environment) : Outcome where
  stderr :=
    line ("logic2vcd version " ++ toolVersion) ++ line "GZIP=1" ++ line "FILE_IO=1" ++
      line ("MAX_PROBES=" ++ maxProbes.repr) ++
      line ("DEFAULT_GZIP_LEVEL=" ++ defaultGzipLevel.repr)
  directory := environment.directory

/-! ## Converting -/

def convertBetweenFiles (request : ConvertRequest) (manner : Manner) (environment : Environment)
    (input output : String) : Outcome :=
  let report :=
    convertFile environment.directory input output request.capture (request.options environment.now)
      request.compression
  { exitCode := if report.result.isOk then 0 else 1
    stdout := report.history.sentTo .standardOutput
    stderr := historyText manner.limit report.history ++
      match report.result with
      | .error error => notice (input ++ ": " ++ error.message)
      | .ok statistics => manner.reports (fileLine statistics) (fileJson statistics)
    directory := report.directory }

def openSource (environment : Environment) (input : Option String) : Except String Source :=
  match input with
  | none => .ok { data := environment.stdin }
  | some path =>
    match environment.directory.openInput path with
    | .ok opened => .ok (environment.directory.source opened blockSize)
    | .error failure => .error ("input file: " ++ path ++ ": " ++ failure.text)

/-- Creates the output of a conversion: a file, or standard output. -/
def createOutput (directory : Directory) (output : Option String) :
    Except String (Output × Directory) :=
  match output with
  | none => .ok (.device .standardOutput, directory)
  | some path =>
    (directory.create path).mapError fun failure =>
      "output file: " ++ path ++ ": " ++ failure.text

def convertThroughStreams (request : ConvertRequest) (manner : Manner) (environment : Environment)
    (output : Option String) : Outcome :=
  let directory := environment.directory
  let refused := fun log reason =>
    Outcome.failure directory (logLines manner.limit log ++ notice reason)
  match Encoder.create request.capture (request.options environment.now) with
  | (.error error, log) => refused log error.message
  | (.ok encoder, log) =>
    match openSource environment request.input with
    | .error reason => refused log reason
    | .ok source =>
      match createOutput directory output with
      | .error reason => refused log reason
      | .ok (target, created) =>
        let storage := convertAndStore request.compression encoder source (target.sink blockSize)
        let history := .telling log ++ storage.history target
        { exitCode := if storage.result.isOk then 0 else 1
          stdout := history.sentTo .standardOutput
          stderr := historyText manner.limit history ++
            match storage.result with
            | .error error => notice ("convert error: " ++ error.message)
            | .ok statistics =>
              let dump := storage.encoder.statistics
              logLines manner.limit [storage.encoder.finishReport] ++
                manner.reports (streamLine statistics dump) (streamJson statistics dump)
          directory := created.close target storage.stored }

/-- The output that is written to a path, unless standard output is asked for. -/
def ConvertRequest.outputPath? (request : ConvertRequest) : Option String :=
  if request.toStdout then none else request.output

/-- The warning about an output that standard output takes the place of. -/
def overrideWarning (request : ConvertRequest) (manner : Manner) : String :=
  match request.output with
  | some path =>
    if request.toStdout && !manner.quiet then
      notice ("warning: -c option overrides output filename: " ++ path)
    else
      ""
  | none => ""

/-- The output that must not be replaced: it exists, and replacing it was not asked for. -/
def protected? (request : ConvertRequest) (manner : Manner) (directory : Directory) :
    Option String :=
  request.outputPath?.filter fun path => directory.holds path && !manner.force

/-- Converts a capture along the route that its input and its output ask for. -/
def runConvert (request : ConvertRequest) (manner : Manner) (environment : Environment) : Outcome :=
  let outcome : Outcome :=
    match protected? request manner environment.directory with
    | some path =>
      .failure environment.directory
        (notice ("output file exists, use -f to overwrite: " ++ path))
    | none =>
      match request.input, request.outputPath? with
      | some input, some output => convertBetweenFiles request manner environment input output
      | _, output => convertThroughStreams request manner environment output
  { outcome with stderr := overrideWarning request manner ++ outcome.stderr }

/-! ## The whole program -/

def helpText : String :=
  line about ++ "\n" ++ line "Usage: logic2vcd [OPTIONS] <COMMAND>" ++ "\n" ++ line "Commands:" ++
    line "  convert  Convert a raw capture to VCD" ++
    line "  probes   Show the VCD variables a channel list produces" ++
    line "  config   Print build/configuration details" ++
    line "  help     Print this message"

def runRequest (request : Request) (environment : Environment) : Outcome :=
  match request.command with
  | .convert conversion => runConvert conversion request.manner environment
  | .probes selection => runProbes selection request.manner environment
  | .config => runConfig environment

def run (texts : List String) (environment : Environment) : Outcome :=
  match Request.ofTexts texts with
  | .ok request => runRequest request environment
  | .error .help => { stdout := bytesOf helpText, directory := environment.directory }
  | .error .version =>
    { stdout := bytesOf (line ("logic2vcd " ++ toolVersion)), directory := environment.directory }
  | .error (.error error) =>
    { exitCode := 2, stderr := error.report, directory := environment.directory }

end WaveDump.CommandLine
