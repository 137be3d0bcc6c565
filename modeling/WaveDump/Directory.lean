import WaveDump.Stream.Sink
import WaveDump.Stream.Source
import WaveDump.Stream.Transfer

/-!
# Directories

A directory knows the files, folders and devices that a run can reach. A path is followed step by
step, from the root or from the folder where relative paths start: `.` stays, `..` goes up, and a
name leads into the folder of that name. What is found at the last step decides how opening and
creating end. A slash after the last name asks for a folder, so nothing can be created there.
-/

namespace WaveDump

/-- A place in the tree of folders: the names on the way from the root. -/
abbrev Place := List String

namespace Place

def child (place : Place) (name : String) : Place :=
  place ++ [name]

def parent (place : Place) : Place :=
  place.dropLast

def isDots (step : String) : Bool :=
  step == "." || step == ".."

def move (place : Place) (step : String) : Place :=
  if step = "." then place
  else if step = ".." then place.parent
  else place.child step

def path (place : Place) : String :=
  "/" ++ "/".intercalate place

end Place

inductive Outlet where
  | dropped
  | refused (failure : Failure)
  | standardOutput
  | standardError
deriving DecidableEq, Repr

structure Device where
  input : List UInt8 := []
  outlet : Outlet := .dropped
deriving DecidableEq, Repr

inductive Entry where
  | file
  | folder
  | device (device : Device)
deriving DecidableEq, Repr

/-- Files, folders and devices by their places. The start and the folders above it need not be
named. -/
structure Directory where
  /-- The folder where relative paths start. -/
  start : Place := []
  files : List (Place × List UInt8) := []
  folders : List Place := []
  devices : List (Place × Device) := []
deriving DecidableEq, Repr

/-- An input that has been opened. A folder can be opened, but not read. -/
inductive Input where
  | file (place : Place)
  | folder
  | device (input : List UInt8)
deriving DecidableEq, Repr

inductive Output where
  | file (place : Place)
  | device (outlet : Outlet)
deriving DecidableEq, Repr

namespace Directory

variable (directory : Directory)

def content? (place : Place) : Option (List UInt8) :=
  directory.files.lookup place

def entry? (place : Place) : Option Entry :=
  if place.isPrefixOf directory.start || directory.folders.contains place then
    some .folder
  else
    match directory.devices.lookup place with
    | some device => some (.device device)
    | none => if (directory.content? place).isSome then some .file else none

/-- The directory with a file set to a content; a new file is added at the end. -/
def put (place : Place) (content : List UInt8) : Directory :=
  if (directory.content? place).isSome then
    { directory with
        files := directory.files.map fun file =>
          if file.1 = place then (place, content) else file }
  else
    { directory with files := directory.files ++ [(place, content)] }

/-! ## Following a path -/

def nameLimit : Nat := 255

def pathLimit : Nat := 4095

def steps (path : String) : List String :=
  ((path.toList.splitOn '/').map String.ofList).filter fun step => step != ""

def origin (path : String) : Place :=
  if path.startsWith "/" then [] else directory.start

def lookup (folder : Place) (name : String) : Except Failure (Option Entry) :=
  if nameLimit < name.utf8ByteSize then .error .nameTooLong
  else .ok (directory.entry? (folder.child name))

def enter (folder : Place) (step : String) : Except Failure Place :=
  if Place.isDots step then
    .ok (folder.move step)
  else
    match directory.lookup folder step with
    | .error failure => .error failure
    | .ok (some .folder) => .ok (folder.move step)
    | .ok (some .file) | .ok (some (.device _)) => .error .notADirectory
    | .ok none => .error .notFound

/-- The folder that a path's last step is taken in, with the name that the step takes. There is no
name if the path ends in dots or has no steps; it then leads to the folder itself. -/
def approach (path : String) : Except Failure (Place × Option String) :=
  if path.isEmpty then .error .notFound
  else if pathLimit < path.utf8ByteSize then .error .nameTooLong
  else
    let way := steps path
    let last := way.getLast?.filter fun step => !Place.isDots step
    let passed := if last.isSome then way.dropLast else way
    (passed.foldlM directory.enter (directory.origin path)).map fun folder => (folder, last)

def asksFolder (path : String) : Bool :=
  path.endsWith "/"

def openInput (path : String) : Except Failure Input :=
  match directory.approach path with
  | .error failure => .error failure
  | .ok (_, none) => .ok .folder
  | .ok (folder, some last) =>
    match directory.lookup folder last with
    | .error failure => .error failure
    | .ok none => .error .notFound
    | .ok (some .folder) => .ok .folder
    | .ok (some .file) =>
      if asksFolder path then .error .notADirectory else .ok (.file (folder.child last))
    | .ok (some (.device device)) =>
      if asksFolder path then .error .notADirectory else .ok (.device device.input)

def holds (path : String) : Bool :=
  (directory.openInput path).isOk

/-- Creates the output that a path leads to. A file that exists is emptied. -/
def create (path : String) : Except Failure (Output × Directory) :=
  match directory.approach path with
  | .error failure => .error failure
  | .ok (_, none) => .error .isADirectory
  | .ok (folder, some last) =>
    if asksFolder path then
      .error .isADirectory
    else
      match directory.lookup folder last with
      | .error failure => .error failure
      | .ok (some .folder) => .error .isADirectory
      | .ok (some .file) | .ok none =>
        .ok (.file (folder.child last), directory.put (folder.child last) [])
      | .ok (some (.device device)) => .ok (.device device.outlet, directory)

/-! ## Inputs -/

/-- The bytes that an opened input hands out, read in blocks of the given size. -/
def source (input : Input) (block : Nat) : Source :=
  match input with
  | .file place => { data := (directory.content? place).getD [], block := some block }
  | .folder => { script := [.fails .isADirectory], block := some block }
  | .device input => { data := input, block := some block }

def inputSize (input : Input) : Nat :=
  match input with
  | .file place => ((directory.content? place).getD []).length
  | .folder | .device _ => 0

/-! ## Outputs -/

/-- The directory when bytes have reached an output and it is closed. -/
def close (output : Output) (content : List UInt8) : Directory :=
  match output with
  | .file place => directory.put place content
  | .device _ => directory

def outputSize (output : Output) : Nat :=
  match output with
  | .file place => ((directory.content? place).getD []).length
  | .device _ => 0

end Directory

/-- The sink that takes what is written to an output, in blocks of the given size. -/
def Output.sink (output : Output) (block : Nat) : Sink :=
  match output with
  | .device (.refused failure) => { room := some 0, refusal := some failure, block := some block }
  | _ => { block := some block }

/-! ## Devices -/

namespace Device

/-- Where standard input, output and error are found, by their number. -/
def streamPlaces (number : Nat) (name : String) : List Place :=
  [["dev", name], ["dev", "fd", number.repr], ["proc", "self", "fd", number.repr]]

/-- The devices that every system has, when standard input holds the given bytes. Devices without an
end are there to be written to. -/
def standard (stdin : List UInt8) : List (Place × Device) :=
  (["null", "zero", "random", "urandom"].map fun name => (["dev", name], ({} : Device))) ++
    [(["dev", "full"], { outlet := .refused .storageFull })] ++
    (streamPlaces 0 "stdin").map (fun place => (place, { input := stdin })) ++
    (streamPlaces 1 "stdout").map (fun place => (place, { outlet := .standardOutput })) ++
    (streamPlaces 2 "stderr").map fun place => (place, { outlet := .standardError })

end Device

end WaveDump
