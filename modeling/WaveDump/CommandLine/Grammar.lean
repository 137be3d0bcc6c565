import WaveDump.CommandLine.Request

/-!
# The grammar of the command line

A command line is read from left to right. Arguments before the subcommand belong to the program,
the others to the subcommand. An option takes its value from the rest of its own text, or from the
next text unless that looks like an option; the value is looked at when the next argument comes or
the line ends. After `--` every text is a position.

The first error that reading meets is reported. A line that can be read is then checked, first the
subcommand's part and then the program's: for arguments that exclude each other, and for required
arguments that are missing.
-/

namespace WaveDump.CommandLine

inductive Part where
  | program
  | subcommand (subcommand : Subcommand)
deriving DecidableEq, Repr

inductive Stop where
  | error (error : UsageError)
  | help
  | version
deriving DecidableEq, Repr

namespace Part

def options : Part → List Argument
  | .program => [.force, .quiet, .verbose, .json, .help, .version]
  | .subcommand .config => [.force, .quiet, .verbose, .json, .help]
  | .subcommand .probes =>
    [.channels, .disable, .sampleRate, .force, .quiet, .verbose, .json, .help]
  | .subcommand .convert =>
    [.channels, .disable, .sampleRate, .unitSize, .date, .gzip, .gzipLevel, .input, .output,
      .stdout, .force, .quiet, .verbose, .json, .help]

def positions : Part → List Argument
  | .subcommand .convert => [.inputPosition, .outputPosition]
  | _ => []

def required : Part → List Argument
  | .subcommand .convert | .subcommand .probes => [.channels]
  | _ => []

def ofLong? (part : Part) (name : String) : Option Argument :=
  part.options.find? fun argument => argument.long? == some name

def ofShort? (part : Part) (name : Char) : Option Argument :=
  part.options.find? fun argument => argument.short? == some name

end Part

structure Reading where
  /-- Settings in the order in which they were given. -/
  settings : List Setting := []
  /-- An argument that has been named and not been looked at yet, with its value if it is there. -/
  pending : Option (Argument × Option String) := none
  positions : List Argument
  /-- Whether all further texts are positions. -/
  onlyPositions : Bool := false
deriving Repr

namespace Reading

def start (part : Part) : Reading where
  positions := part.positions

/-- Adds a setting, unless its argument was given before and may not be given again. -/
def add (reading : Reading) (argument : Argument) (setting : Except UsageError Setting) :
    Except Stop Reading :=
  if given argument reading.settings && !argument.repeats then
    .error (.error (.repeated argument.text))
  else
    match setting with
    | .ok setting => .ok { reading with settings := reading.settings ++ [setting] }
    | .error error => .error (.error error)

def settle (reading : Reading) : Except Stop Reading :=
  match reading.pending with
  | none => .ok reading
  | some (argument, none) => .error (.error (.missingValue argument.text))
  | some (argument, some value) =>
    { reading with pending := none }.add argument (argument.setting value)

/-- Takes a flag. The flags without a setting ask for the version or for help. -/
def takeFlag (reading : Reading) (flag : Argument) : Except Stop Reading := do
  let settled ← reading.settle
  match flag.flagSetting? with
  | some setting => settled.add flag (.ok setting)
  | none => .error (if flag = .version then .version else .help)

/-- Takes an option, with its value if the value is part of its own text. -/
def takeOption (reading : Reading) (option : Argument) (value : Option String) :
    Except Stop Reading := do
  let settled ← reading.settle
  match value with
  | none => .ok { settled with pending := some (option, none) }
  | some value => settled.add option (option.setting value)

/-- Takes a text that starts with two dashes: a long name, and a value after an equals sign. -/
def takeLong (part : Part) (reading : Reading) (body : List Char) : Except Stop Reading :=
  let name := String.ofList (body.takeWhile (· != '='))
  let value :=
    match body.dropWhile (· != '=') with
    | [] => none
    | _ :: value => some (String.ofList value)
  match part.ofLong? name with
  | none => .error (.error (.unexpectedArgument ("--" ++ name)))
  | some argument =>
    if argument.takesValue then
      reading.takeOption argument value
    else
      match value with
      | none => reading.takeFlag argument
      | some value => .error (.error (.unwantedValue value argument.text))

/-- Takes the short names after one dash. Flags may be joined; an option takes the rest as its
value, without an equals sign in front. -/
def takeShorts (part : Part) (reading : Reading) : List Char → Except Stop Reading
  | [] => .ok reading
  | name :: rest =>
    match part.ofShort? name with
    | none => .error (.error (.unexpectedArgument (String.ofList ['-', name])))
    | some argument =>
      if argument.takesValue then
        reading.takeOption argument <|
          match rest with
          | [] => none
          | '=' :: value => some (String.ofList value)
          | value => some (String.ofList value)
      else do
        let flagged ← reading.takeFlag argument
        takeShorts part flagged rest

def takePosition (part : Part) (reading : Reading) (text : String) : Except Stop Reading :=
  match reading.positions with
  | position :: rest => do
    let settled ← reading.settle
    .ok { settled with pending := some (position, some text), positions := rest }
  | [] =>
    .error <| .error <|
      match part with
      | .subcommand _ => .unexpectedArgument text
      | .program =>
        let known := (Subcommand.ofName? text).isSome || text == "help"
        if reading.onlyPositions && known then .unexpectedArgument text
        else .unrecognizedSubcommand text

def take (part : Part) (reading : Reading) (text : String) : Except Stop Reading :=
  if reading.onlyPositions then
    reading.takePosition part text
  else
    match text.toList with
    | ['-', '-'] => .ok { reading with onlyPositions := true }
    | '-' :: '-' :: body => reading.takeLong part body
    | '-' :: name :: names => reading.takeShorts part (name :: names)
    | _ =>
      match reading.pending with
      | some (argument, none) => .ok { reading with pending := some (argument, some text) }
      | _ => reading.takePosition part text

def latest : List Setting → List Setting
  | [] => []
  | setting :: rest =>
    if given setting.argument rest then latest rest else setting :: latest rest

/-- The first argument whose rival was given too. An argument has its place where it was given
last. -/
def conflict? (settings : List Setting) : Option UsageError :=
  (latest settings).findSome? fun setting =>
    match setting.argument.rival? with
    | some rival =>
      if given rival settings then some (.conflict setting.argument.text rival.text) else none
    | none => none

/-- The settings of a part of the line, when it has been read to its end. -/
def finish (part : Part) (reading : Reading) : Except Stop (List Setting) := do
  let settled ← reading.settle
  match conflict? settled.settings with
  | some conflict => .error (.error conflict)
  | none =>
    let missing := part.required.filter fun argument => !given argument settled.settings
    if missing.isEmpty then
      .ok settled.settings
    else
      .error (.error (.missingRequired (missing.map Argument.text)))

end Reading

def readSubcommand (subcommand : Subcommand) (texts : List String) :
    Except Stop (List Setting) := do
  let part := Part.subcommand subcommand
  let reading ← texts.foldlM (Reading.take part) (Reading.start part)
  reading.finish part

def helpOn : List String → Stop
  | [] => .help
  | name :: rest =>
    if (Subcommand.ofName? name).isSome || name == "help" then
      match rest with
      | [] => .help
      | other :: _ => .error (.unrecognizedSubcommand other)
    else
      .error (.unrecognizedSubcommand name)

/-- Reads the program's part of the line and, from the subcommand on, the rest. -/
def readProgram (reading : Reading) : List String → Except Stop Request
  | [] => do
    let settled ← reading.settle
    .error (.error (if settled.settings.isEmpty then .noArguments else .missingSubcommand))
  | text :: rest =>
    if reading.onlyPositions then do
      let next ← reading.take .program text
      readProgram next rest
    else
      match Subcommand.ofName? text with
      | some subcommand => do
        let settings ← readSubcommand subcommand rest
        let program ← reading.finish .program
        .ok (requestOf program subcommand settings)
      | none =>
        if text == "help" then
          .error (helpOn rest)
        else do
          let next ← reading.take .program text
          readProgram next rest

def Request.ofTexts (texts : List String) : Except Stop Request :=
  readProgram (Reading.start .program) texts

end WaveDump.CommandLine
