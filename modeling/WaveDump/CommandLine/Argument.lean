import WaveDump.Moment
import WaveDump.SampleRate
import WaveDump.Text.Number
import WaveDump.Text.Terminal
import WaveDump.Word

/-!
# Arguments of the command line

The program has three subcommands. Each of them, and the program itself, takes options and flags by
long and short names; a conversion also takes its two paths by position. Giving an argument makes a
setting; this module reads settings from the texts of values and names everything that can be wrong
with a command line.
-/

namespace WaveDump.CommandLine

inductive Subcommand where
  | convert
  | probes
  | config
deriving DecidableEq, Repr

def Subcommand.name : Subcommand → String
  | .convert => "convert"
  | .probes => "probes"
  | .config => "config"

def Subcommand.ofName? (name : String) : Option Subcommand :=
  [.convert, .probes, .config].find? fun subcommand => subcommand.name == name

/-- Everything that can be given on a command line besides a subcommand. -/
inductive Argument where
  | channels
  | disable
  | sampleRate
  | unitSize
  | date
  | gzip
  | gzipLevel
  | input
  | output
  | stdout
  | inputPosition
  | outputPosition
  | force
  | quiet
  | verbose
  | json
  | help
  | version
deriving DecidableEq, Repr

inductive Setting where
  | channels (names : List String)
  | disable (names : List String)
  | sampleRate (rate : Nat)
  | unitSize (bytes : Nat)
  | date (moment : Moment)
  | gzip
  | gzipLevel (level : Nat)
  | input (path : String)
  | output (path : String)
  | stdout
  | inputPosition (path : String)
  | outputPosition (path : String)
  | force
  | quiet
  | verbose
  | json
deriving DecidableEq, Repr

/-- What can be wrong with a command line. Arguments are named as the user would write them. -/
inductive UsageError where
  | noArguments
  | missingSubcommand
  | unrecognizedSubcommand (text : String)
  | unexpectedArgument (text : String)
  | missingValue (argument : String)
  | unwantedValue (value argument : String)
  | invalidValue (value argument cause : String)
  | repeated (argument : String)
  | conflict (argument other : String)
  | missingRequired (arguments : List String)
deriving DecidableEq, Repr

def about : String := "Convert packed logic-analyzer captures to VCD"

namespace UsageError

open Text.Terminal (mark)

/-- What a user is told about a command line that is wrong. Texts of the user and names of arguments
stand out. -/
def message : UsageError → String
  | .noArguments => about
  | .missingSubcommand =>
    mark "error:" ++ " '" ++ mark "logic2vcd" ++
      "' requires a subcommand but one was not provided"
  | .unrecognizedSubcommand text =>
    mark "error:" ++ " unrecognized subcommand '" ++ mark text ++ "'"
  | .unexpectedArgument text =>
    mark "error:" ++ " unexpected argument '" ++ mark text ++ "' found"
  | .missingValue argument =>
    mark "error:" ++ " a value is required for '" ++ mark argument ++ "' but none was supplied"
  | .unwantedValue value argument =>
    mark "error:" ++ " unexpected value '" ++ mark value ++ "' for '" ++ mark argument ++
      "' found; no more were expected"
  | .invalidValue value argument cause =>
    mark "error:" ++ " invalid value '" ++ mark value ++ "' for '" ++ mark argument ++ "': " ++
      cause
  | .repeated argument =>
    mark "error:" ++ " the argument '" ++ mark argument ++ "' cannot be used multiple times"
  | .conflict argument other =>
    mark "error:" ++ " the argument '" ++ mark argument ++ "' cannot be used with '" ++
      mark other ++ "'"
  | .missingRequired arguments =>
    mark "error:" ++ " the following required arguments were not provided:" ++
      String.join (arguments.map fun argument => "\n  " ++ mark argument)

def hint : String :=
  "For more information, try '" ++ mark "--help" ++ "'."

/-- The message and the hint, as they are shown away from a terminal. -/
def report (error : UsageError) : String :=
  Text.Terminal.plain (error.message ++ "\n\n" ++ hint ++ "\n")

end UsageError

namespace Setting

def argument : Setting → Argument
  | .channels _ => .channels
  | .disable _ => .disable
  | .sampleRate _ => .sampleRate
  | .unitSize _ => .unitSize
  | .date _ => .date
  | .gzip => .gzip
  | .gzipLevel _ => .gzipLevel
  | .input _ => .input
  | .output _ => .output
  | .stdout => .stdout
  | .inputPosition _ => .inputPosition
  | .outputPosition _ => .outputPosition
  | .force => .force
  | .quiet => .quiet
  | .verbose => .verbose
  | .json => .json

end Setting

namespace Argument

def long? : Argument → Option String
  | .channels => some "channels"
  | .disable => some "disable"
  | .sampleRate => some "samplerate"
  | .unitSize => some "unit-size"
  | .date => some "date"
  | .gzip => some "gzip"
  | .gzipLevel => some "gzip-level"
  | .input => some "input"
  | .output => some "output"
  | .stdout => some "stdout"
  | .inputPosition | .outputPosition => none
  | .force => some "force"
  | .quiet => some "quiet"
  | .verbose => some "verbose"
  | .json => some "json"
  | .help => some "help"
  | .version => some "version"

def short? : Argument → Option Char
  | .channels => some 'C'
  | .sampleRate => some 'r'
  | .gzip => some 'z'
  | .stdout => some 'c'
  | .force => some 'f'
  | .quiet => some 'q'
  | .verbose => some 'v'
  | .help => some 'h'
  | .version => some 'V'
  | _ => none

def valueName? : Argument → Option String
  | .channels => some "NAMES"
  | .disable => some "NAME"
  | .sampleRate => some "SAMPLE_RATE"
  | .unitSize => some "UNIT_SIZE"
  | .date => some "DATE"
  | .gzipLevel => some "GZIP_LEVEL"
  | .input => some "INPUT"
  | .output => some "OUTPUT"
  | .inputPosition => some "INPUT_POS"
  | .outputPosition => some "OUTPUT_POS"
  | _ => none

def takesValue (argument : Argument) : Bool :=
  argument.valueName?.isSome

def repeats : Argument → Bool
  | .channels | .disable | .verbose => true
  | _ => false

def text (argument : Argument) : String :=
  match argument.long?, argument.valueName? with
  | none, valueName => "[" ++ valueName.getD "" ++ "]"
  | some long, some valueName => "--" ++ long ++ " <" ++ valueName ++ ">"
  | some long, none => "--" ++ long ++ if argument.repeats then "..." else ""

def rival? : Argument → Option Argument
  | .input => some .inputPosition
  | .inputPosition => some .input
  | .output => some .outputPosition
  | .outputPosition => some .output
  | .quiet => some .verbose
  | .verbose => some .quiet
  | _ => none

/-- The setting that a flag makes; the requests for help and for the version make none. -/
def flagSetting? : Argument → Option Setting
  | .gzip => some .gzip
  | .stdout => some .stdout
  | .force => some .force
  | .quiet => some .quiet
  | .verbose => some .verbose
  | .json => some .json
  | _ => none

/-! ## Values -/

def minUnitSize : Nat := 1
def maxUnitSize : Nat := 4096
def maxGzipLevel : Nat := 9

def readUnitSize (value : String) : Except String Nat :=
  match Text.readNat maxWord value.toList with
  | .error cause => .error cause.message
  | .ok bytes =>
    if minUnitSize ≤ bytes && bytes ≤ maxUnitSize then
      .ok bytes
    else
      .error (bytes.repr ++ " is not in " ++ minUnitSize.repr ++ "..=" ++ maxUnitSize.repr)

def readGzipLevel (value : String) : Except String Nat :=
  match Text.readInt 0x7FFFFFFFFFFFFFFF value.toList with
  | .error cause => .error cause.message
  | .ok level =>
    if 0 ≤ level && level ≤ maxGzipLevel then
      .ok level.toNat
    else
      .error (level.repr ++ " is not in 0..=" ++ maxGzipLevel.repr)

def readDate (value : String) : Except String Moment :=
  match Moment.read value with
  | .ok moment => .ok moment
  | .error cause =>
    .error ("invalid date '" ++ value ++ "' (expected YYYY-MM-DD HH:MM:SS): " ++ cause.message)

def readNames (value : String) : List String :=
  (value.toList.splitOn ',').map String.ofList

def settingOf (argument : Argument) (value : String) (make : α → Setting)
    (reading : Except String α) : Except UsageError Setting :=
  match reading with
  | .ok content => .ok (make content)
  | .error cause => .error (.invalidValue value argument.text cause)

def settingOfPath (argument : Argument) (value : String) (make : String → Setting) :
    Except UsageError Setting :=
  if value.isEmpty then .error (.missingValue argument.text) else .ok (make value)

def setting (argument : Argument) (value : String) : Except UsageError Setting :=
  match argument with
  | .channels => .ok (.channels (readNames value))
  | .disable => .ok (.disable (readNames value))
  | .sampleRate =>
    argument.settingOf value .sampleRate ((SampleRate.read value).mapError SampleRateError.message)
  | .unitSize => argument.settingOf value .unitSize (readUnitSize value)
  | .date => argument.settingOf value .date (readDate value)
  | .gzipLevel => argument.settingOf value .gzipLevel (readGzipLevel value)
  | .input => argument.settingOfPath value .input
  | .output => argument.settingOfPath value .output
  | .inputPosition => argument.settingOfPath value .inputPosition
  | .outputPosition => argument.settingOfPath value .outputPosition
  | flag => .error (.unwantedValue value flag.text)

end Argument

end WaveDump.CommandLine
