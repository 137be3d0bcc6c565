import Std.Time.Zoned
import WaveDump.CommandLine.Run

/-!
# The program

The outermost layer: it looks at the files that a command line names, runs the line, and carries out
what the run left behind.
-/

namespace WaveDump.Main

open WaveDump.CommandLine

def currentMoment : IO Moment := do
  let now ← Std.Time.PlainDateTime.now
  return {
    year := now.date.year.toInt
    month := now.date.month.val.toNat
    day := now.date.day.val.toNat
    hour := now.time.hour.val.toNat
    minute := now.time.minute.val.toNat
    second := now.time.second.val.toNat
  }

def conversion? (texts : List String) : Option ConvertRequest :=
  match Request.ofTexts texts with
  | .ok { command := .convert conversion, .. } => some conversion
  | _ => none

def placeOf (start : Place) (path : String) : Place :=
  (Directory.steps path).foldl Place.move (({ start } : Directory).origin path)

/-- Whether a conversion reads standard input, by default or by one of its paths. -/
def readsStdin (start : Place) (conversion : ConvertRequest) : Bool :=
  match conversion.input with
  | none => true
  | some path => (Device.streamPlaces 0 "stdin").contains (placeOf start path)

def readStdin : IO (List UInt8) := do
  return (← (← IO.getStdin).readBinToEnd).data.toList

/-- Adds what is found at a place: a file with its content, or a folder. -/
def observe (directory : Directory) (place : Place) : IO Directory := do
  if (directory.entry? place).isSome then
    return directory
  try
    let content ← IO.FS.readBinFile place.path
    return directory.put place content.data.toList
  catch _ =>
    try
      let _ ← IO.FS.realPath place.path
      return { directory with folders := place :: directory.folders }
    catch _ =>
      return directory

def placesAlong (start : Place) (path : String) : List Place :=
  let way := Directory.steps path
  (List.range way.length).map fun count =>
    (way.take (count + 1)).foldl Place.move (({ start } : Directory).origin path)

/-- Everything that the given paths lead to and through, and the standard devices. -/
def snapshot (start : Place) (stdin : List UInt8) (paths : List String) : IO Directory :=
  (paths.flatMap (placesAlong start)).foldlM observe { start, devices := Device.standard stdin }

def restore (earlier later : Directory) : IO Unit :=
  later.files.forM fun (place, content) => do
    if earlier.content? place != some content then
      IO.FS.writeBinFile place.path content.toByteArray

end WaveDump.Main

open WaveDump WaveDump.CommandLine WaveDump.Main in
def main (texts : List String) : IO UInt32 := do
  let conversion := conversion? texts
  let paths := conversion.toList.flatMap fun request =>
    request.input.toList ++ request.output.toList
  let start := Directory.steps (← IO.currentDir).toString
  let stdin ← if conversion.any (readsStdin start) then readStdin else pure []
  let directory ← snapshot start stdin paths
  let now ← currentMoment
  let outcome := run texts { stdin, directory, now }
  restore directory outcome.directory
  (← IO.getStdout).write outcome.stdout.toByteArray
  (← IO.getStdout).flush
  (← IO.getStderr).putStr outcome.stderr
  return outcome.exitCode.toUInt32
