import WaveDump.CommandLine.Argument
import WaveDump.Conversion.File
import WaveDump.Text.Blank

/-!
# Requests

A request is what a command line asks for, with every choice made: which subcommand, on which
channels, from where to where. It is gathered from the settings that were given to the program and
to the subcommand.
-/

namespace WaveDump.CommandLine

/-- The channels of a capture as the command line describes them. -/
structure Selection where
  names : List String
  disabled : List String
  rate : Option Nat
deriving DecidableEq, Repr

/-- A conversion. Without an input the capture is read from standard input, without an output the
dump is written to standard output. -/
structure ConvertRequest extends Selection where
  unitSize : Option Nat
  date : Option Moment
  compression : Compression
  input : Option String
  output : Option String
  /-- Whether the dump goes to standard output although an output may be named. -/
  toStdout : Bool
deriving DecidableEq, Repr

structure Manner where
  force : Bool
  quiet : Bool
  /-- How many times more detail was asked for, at most twice. -/
  verbosity : Nat
  json : Bool
deriving DecidableEq, Repr

inductive Command where
  | convert (request : ConvertRequest)
  | probes (selection : Selection)
  | config
deriving DecidableEq, Repr

structure Request where
  command : Command
  manner : Manner
deriving DecidableEq, Repr

def defaultGzipLevel : Nat := 6

/-- The capture that a selection describes. Names are taken without surrounding white space; a
channel is left out if its name is one of the disabled names as they were given. -/
def Selection.capture (selection : Selection) : Capture where
  channels := selection.names.map fun name =>
    let trimmed := String.ofList (Text.trim name.toList)
    { name := trimmed, enabled := !selection.disabled.contains trimmed }
  rate := selection.rate

/-- How the dump of a conversion is to be made; without a fixed date it is dated `now`. -/
def ConvertRequest.options (request : ConvertRequest) (now : Moment) : EncoderOptions where
  date := request.date.getD now
  unitSize := request.unitSize

/-! ## From settings -/

def given (argument : Argument) (settings : List Setting) : Bool :=
  settings.any fun setting => setting.argument = argument

def selectionOf (settings : List Setting) : Selection where
  names := settings.flatMap fun
    | .channels names => names
    | _ => []
  disabled := settings.flatMap fun
    | .disable names => names
    | _ => []
  rate := settings.findSome? fun
    | .sampleRate rate => some rate
    | _ => none

/-- The conversion that settings describe. A path by name and a path by position exclude each
other. -/
def convertRequestOf (settings : List Setting) : ConvertRequest where
  toSelection := selectionOf settings
  unitSize := settings.findSome? fun
    | .unitSize bytes => some bytes
    | _ => none
  date := settings.findSome? fun
    | .date moment => some moment
    | _ => none
  compression :=
    if given .gzip settings then
      let level := settings.findSome? fun
        | .gzipLevel level => some level
        | _ => none
      .gzip (level.getD defaultGzipLevel)
    else
      .none
  input := settings.findSome? fun
    | .input path | .inputPosition path => some path
    | _ => none
  output := settings.findSome? fun
    | .output path | .outputPosition path => some path
    | _ => none
  toStdout := given .stdout settings

/-- How often more detail is asked for. What is said at the subcommand counts; the program's own
flags count if nothing is said there. -/
def verbosityOf (program subcommand : List Setting) : Nat :=
  let times := fun settings : List Setting => settings.countP fun setting => setting = .verbose
  let asked := if given .verbose subcommand then times subcommand else times program
  min asked 2

/-- The manner that the settings of the program and of the subcommand describe. -/
def mannerOf (program subcommand : List Setting) : Manner where
  force := given .force program || given .force subcommand
  quiet := given .quiet program || given .quiet subcommand
  verbosity := verbosityOf program subcommand
  json := given .json program || given .json subcommand

def requestOf (program : List Setting) (subcommand : Subcommand) (settings : List Setting) :
    Request where
  command :=
    match subcommand with
    | .convert => .convert (convertRequestOf settings)
    | .probes => .probes (selectionOf settings)
    | .config => .config
  manner := mannerOf program settings

end WaveDump.CommandLine
