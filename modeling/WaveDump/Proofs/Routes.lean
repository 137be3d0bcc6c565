import WaveDump.CommandLine.Run
import WaveDump.Proofs.Body
import WaveDump.Proofs.FileConversion
import WaveDump.Proofs.Settings

/-!
# Routes of a conversion

A capture comes from a file or from standard input, and its dump goes to a file or to standard
output. From one file to another the conversion goes its own way, with the input's size taken from
the directory; all other routes go through streams. Whichever route is taken, the dump is the one
that a single frame with the whole capture gives, and the reports tell the same about it.
-/

namespace WaveDump

/-! ## What reaches standard output -/

namespace History

variable (first second : History) (outlet : Outlet)

theorem sentTo_append :
    (first ++ second).sentTo outlet = first.sentTo outlet ++ second.sentTo outlet := by
  simp [sentTo]

theorem sentTo_telling (log : Log) : (telling log).sentTo outlet = [] := by
  simp [telling, sentTo]

theorem sentTo_sending_device (bytes : List UInt8) :
    (sending (.device outlet) bytes).sentTo outlet = bytes := by
  simp [sending, sentTo]

end History

namespace StorageReport

variable (report : StorageReport)

theorem sentTo_history_device (outlet : Outlet) :
    (report.history (.device outlet)).sentTo outlet = report.stored := by
  simp only [history, History.sentTo_append, History.sentTo_telling, History.sentTo_sending_device,
    List.nil_append, List.append_nil, stored]

end StorageReport

namespace CommandLine

/-! ## Routes -/

/-- The input of a request holds a capture, at a place of the directory or at standard input. -/
inductive Delivers (environment : Environment) (content : List UInt8) :
    Option String → Option Place → Prop
  | standardInput (given : environment.stdin = content) : Delivers environment content none none
  | file {path : String} {place : Place}
      (opened : environment.directory.openInput path = .ok (.file place))
      (found : environment.directory.content? place = some content) :
      Delivers environment content (some path) (some place)

/-- The output of a request can be written, at a place of the directory or at standard output. -/
inductive Receives (directory : Directory) : Option String → Option Place → Prop
  | standardOutput : Receives directory none none
  | file {path : String} {place : Place} {created : Directory}
      (made : directory.create path = .ok (.file place, created)) :
      Receives directory (some path) (some place)

/-- A command line takes the capture `content` to a target: a place of the directory other than the
capture's own, or standard output. An output that exists may be replaced. -/
structure Route (texts : List String) (environment : Environment) (content : List UInt8)
    (request : ConvertRequest) (manner : Manner) (target : Option Place) : Prop where
  read : Request.ofTexts texts = .ok { command := .convert request, manner }
  source : ∃ source, Delivers environment content request.input source ∧
    (source = none ∨ source ≠ target)
  target : Receives environment.directory request.outputPath? target
  unprotected : protected? request manner environment.directory = none

/-- What a run has left at its target. -/
def Outcome.delivered (outcome : Outcome) : Option Place → Option (List UInt8)
  | none => some outcome.stdout
  | some place => outcome.directory.content? place

/-- The fields of the report that all routes share. -/
def Outcome.Reports (outcome : Outcome) (inputSize : Nat) (dump : EncoderStatistics) : Prop :=
  ∃ told extra, outcome.stderr = told ++ jsonLines (conversionFields inputSize dump ++ extra) ∧
    ∀ field ∈ extra, field.1 ∉ (conversionFields inputSize dump).map Prod.fst

/-- A run that has gone well: its target holds the given bytes, and its report, if one is wanted,
tells about them. -/
structure Outcome.Succeeds (outcome : Outcome) (manner : Manner) (target : Option Place)
    (stored : List UInt8) (inputSize : Nat) (dump : EncoderStatistics) : Prop where
  exitCode : outcome.exitCode = 0
  delivered : outcome.delivered target = some stored
  reports : manner.json → outcome.Reports inputSize dump

section Runs

variable {texts : List String} {environment : Environment} {content : List UInt8}
  {request : ConvertRequest} {manner : Manner} {target : Option Place}

/-- A run along a route converts between files or through streams, and what it says may have a
warning in front. -/
theorem Route.run_cases (route : Route texts environment content request manner target) :
    ∃ outcome, run texts environment =
        { outcome with stderr := overrideWarning request manner ++ outcome.stderr } ∧
      ((∃ input output, request.input = some input ∧ request.outputPath? = some output ∧
          outcome = convertBetweenFiles request manner environment input output) ∨
        outcome = convertThroughStreams request manner environment request.outputPath?) := by
  simp only [run, route.read, runRequest, runConvert, route.unprotected]
  cases request.input with
  | none => exact ⟨_, rfl, .inr rfl⟩
  | some input =>
      cases request.outputPath? with
      | none => exact ⟨_, rfl, .inr rfl⟩
      | some output => exact ⟨_, rfl, .inl ⟨input, output, rfl, rfl, rfl⟩⟩

theorem Route.rejected (route : Route texts environment content request manner target)
    {error : ConfigError}
    (refused : (Encoder.create request.capture (request.options environment.now)).1 =
      .error error) :
    (run texts environment).exitCode = 1 ∧ (run texts environment).stdout = [] ∧
      (run texts environment).directory = environment.directory := by
  rcases created : Encoder.create request.capture (request.options environment.now) with
    ⟨result, log⟩
  obtain rfl : result = .error error := by simpa only [created] using refused
  rcases route.run_cases with ⟨outcome, ran, ⟨input, output, _, _, rfl⟩ | rfl⟩
  all_goals rw [ran]
  · simp [convertBetweenFiles, convertFile, created, History.sentTo_telling, Except.isOk,
      Except.toBool]
  · simp [convertThroughStreams, created, Outcome.failure]

/-! ### Routes of accepted configurations -/

def outputFor : Option Place → Output
  | none => .device .standardOutput
  | some place => .file place

theorem sink_outputFor (target : Option Place) :
    (outputFor target).sink blockSize = { block := some blockSize } := by
  cases target <;> rfl

theorem Delivers.openSource {input : Option String} {source : Option Place}
    (delivers : Delivers environment content input source) :
    ∃ opened, openSource environment input = .ok opened ∧ opened.Proceeds ∧
      opened.pending = content := by
  cases delivers with
  | standardInput given =>
      refine ⟨_, rfl, by simp [Source.Proceeds], ?_⟩
      simpa [Source.pending] using given
  | file opened found =>
      refine ⟨{ data := content, block := some blockSize }, ?_, by simp [Source.Proceeds], ?_⟩
      · simp [CommandLine.openSource, opened, Directory.source, found]
      · simp [Source.pending]

theorem Receives.createOutput {output : Option String}
    (receives : Receives environment.directory output target) :
    ∃ created, createOutput environment.directory output = .ok (outputFor target, created) := by
  cases receives with
  | standardOutput => exact ⟨_, rfl⟩
  | file made =>
      simp only [CommandLine.createOutput, made]
      exact ⟨_, rfl⟩

theorem delivered_close (log : Log) (storage : StorageReport) (created : Directory)
    (exitCode : Nat) (stderr : String) (target : Option Place) :
    Outcome.delivered
      { exitCode
        stdout := (History.telling log ++ storage.history (outputFor target)).sentTo .standardOutput
        stderr
        directory := created.close (outputFor target) storage.stored } target =
      some storage.stored := by
  cases target with
  | none =>
      simp only [Outcome.delivered, outputFor, History.sentTo_append, History.sentTo_telling,
        StorageReport.sentTo_history_device, List.nil_append]
  | some place =>
      simp only [Outcome.delivered, outputFor, Directory.close, Directory.content?_put_self]

theorem Outcome.reports_of_stderr {outcome : Outcome} {told summary : String} {inputSize : Nat}
    {dump : EncoderStatistics} {extra : List (String × Text.Json)} (json : manner.json)
    (ends : outcome.stderr =
      told ++ manner.reports summary (jsonLines (conversionFields inputSize dump ++ extra)))
    (others : ∀ field ∈ extra, field.1 ∉ (conversionFields inputSize dump).map Prod.fst) :
    outcome.Reports inputSize dump := by
  refine ⟨told ++ (if 0 < manner.verbosity && !manner.quiet then summary else ""), extra, ?_,
    others⟩
  simp only [ends, Manner.reports, json, ↓reduceIte, String.append_assoc]

theorem Outcome.Succeeds.warned {outcome : Outcome} {stored : List UInt8} {inputSize : Nat}
    {dump : EncoderStatistics} (succeeds : outcome.Succeeds manner target stored inputSize dump)
    (warning : String) :
    Outcome.Succeeds { outcome with stderr := warning ++ outcome.stderr } manner target stored
      inputSize dump where
  exitCode := succeeds.exitCode
  delivered := by
    rw [← succeeds.delivered]
    cases target <;> rfl
  reports := by
    intro json
    rcases succeeds.reports json with ⟨told, extra, ends, others⟩
    refine ⟨warning ++ told, extra, ?_, others⟩
    simp only [ends, String.append_assoc]

variable {encoder : Encoder} {log : Log}
  (created : Encoder.create request.capture (request.options environment.now) = (.ok encoder, log))
include created

theorem convertThroughStreams_succeeds {output : Option String} {source : Option Place}
    (delivers : Delivers environment content request.input source)
    (receives : Receives environment.directory output target) :
    (convertThroughStreams request manner environment output).Succeeds manner target
      (request.compression.pack
        (textBytes (encoder.frameText content (max encoder.unitSize 1)))) content.length
      (encoder.afterFrame content (max encoder.unitSize 1)).statistics := by
  rcases delivers.openSource with ⟨opened, openedOk, proceeds, pending⟩
  rcases receives.createOutput with ⟨made, madeOk⟩
  have completes := convertAndStore_completes request.compression encoder proceeds blockSize none
    (List.forall_mem_nil _) (List.forall_mem_nil _)
  rw [pending] at completes
  simp only [convertThroughStreams, created, openedOk, madeOk, sink_outputFor]
  exact
    { exitCode := by simp [completes.result, Except.isOk, Except.toBool]
      delivered := by
        rw [← completes.stored]
        exact delivered_close _ _ _ _ _ _
      reports := by
        intro json
        apply Outcome.reports_of_stderr json
        · simp only [completes.result, completes.statistics, streamJson, ← String.append_assoc]
          rfl
        · simp [conversionFields] }

theorem convertBetweenFiles_succeeds {input output : String} {source place : Place}
    (delivers : Delivers environment content (some input) (some source))
    (receives : Receives environment.directory (some output) (some place))
    (differ : source ≠ place) :
    (convertBetweenFiles request manner environment input output).Succeeds manner (some place)
      (request.compression.pack
        (textBytes (encoder.frameText content (max encoder.unitSize 1)))) content.length
      (encoder.afterFrame content (max encoder.unitSize 1)).statistics := by
  cases delivers with
  | file opened found =>
  cases receives with
  | file made =>
      rcases convertFile_completes request.compression created opened found made
        differ (List.forall_mem_nil _) (List.forall_mem_nil _) with ⟨history, reported⟩
      simp only [convertBetweenFiles, reported]
      exact
        { exitCode := rfl
          delivered := by simp only [Outcome.delivered, Directory.content?_put_self]
          reports := by
            intro json
            apply Outcome.reports_of_stderr json
            · simp only [fileJson]
              rfl
            · simp [conversionFields] }

/-- Along every route an accepted configuration brings the same dump to the target. -/
theorem Route.accepted (route : Route texts environment content request manner target) :
    (run texts environment).Succeeds manner target
      (request.compression.pack
        (textBytes (encoder.frameText content (max encoder.unitSize 1)))) content.length
      (encoder.afterFrame content (max encoder.unitSize 1)).statistics := by
  rcases route.source with ⟨source, delivers, differ⟩
  have receives := route.target
  rcases route.run_cases with ⟨outcome, ran, ⟨input, output, isInput, isOutput, rfl⟩ | rfl⟩
  · rw [ran]
    apply Outcome.Succeeds.warned
    rw [isInput] at delivers
    rw [isOutput] at receives
    cases delivers with
    | file opened found =>
    cases receives with
    | file made =>
        apply convertBetweenFiles_succeeds created (.file opened found) (.file made)
        simpa using differ
  · rw [ran]
    apply Outcome.Succeeds.warned
    exact convertThroughStreams_succeeds created delivers receives

end Runs

/-! ## One dump for all routes -/

/-- A request for the channels of a selection, with a fixed date. -/
structure ConvertRequest.AsksFor (request : ConvertRequest) (selection : Selection)
    (unitSize : Option Nat) (date : Moment) : Prop where
  selection : request.toSelection = selection
  unitSize : request.unitSize = unitSize
  date : request.date = some date

section Agreement

variable {selection : Selection} {unitSize : Option Nat} {date : Moment} {encoder : Encoder}

theorem ConvertRequest.AsksFor.options_eq {request : ConvertRequest}
    (asks : request.AsksFor selection unitSize date) (now : Moment) :
    request.options now = { date, unitSize } := by
  simp only [ConvertRequest.options, asks.unitSize, asks.date, Option.getD_some]

end Agreement

/-- A command line with a fixed date, up to the arguments that choose a route. -/
def busLine (route : List String) : List String :=
  ["convert", "-C", "clk,data<1>", "--channels=data<0>,spare", "--disable", "spare",
    "--unit-size", "2", "--date", "2024-02-29 12:00:00", "--json"] ++ route

def busSelection : Selection where
  names := ["clk", "data<1>", "data<0>", "spare"]
  disabled := ["spare"]
  rate := none

def busRequest (compression : Compression) (input output : Option String) (toStdout : Bool) :
    ConvertRequest where
  toSelection := busSelection
  unitSize := some 2
  date := some clockAndBusOptions.date
  compression := compression
  input := input
  output := output
  toStdout := toStdout

def busManner : Manner where
  force := false
  quiet := false
  verbosity := 0
  json := true

def busBytes : List UInt8 := [3, 0, 3, 255, 6, 0, 1]

def busEnvironment : Environment where
  stdin := busBytes
  directory := { files := [(["in.raw"], busBytes)] }
  now := { year := 2026, month := 1, day := 1, hour := 0, minute := 0, second := 0 }

theorem busOutput_created : busEnvironment.directory.create "out.vcd" = .ok (.file ["out.vcd"],
    { files := [(["in.raw"], busBytes), (["out.vcd"], [])] }) := by
  cbv

theorem busOutput_absent : busEnvironment.directory.holds "out.vcd" = false := by
  have notFound : busEnvironment.directory.openInput "out.vcd" = .error .notFound := by cbv
  simp [Directory.holds, notFound, Except.isOk, Except.toBool]

theorem route_fileToFile :
    Route (busLine ["in.raw", "out.vcd"]) busEnvironment busBytes
      (busRequest .none (some "in.raw") (some "out.vcd") false) busManner (some ["out.vcd"]) where
  read := by cbv
  source := ⟨some ["in.raw"], .file (by cbv) (by cbv), by decide⟩
  target := .file busOutput_created
  unprotected := by
    simp [protected?, ConvertRequest.outputPath?, busRequest, busOutput_absent]

end CommandLine

end WaveDump
