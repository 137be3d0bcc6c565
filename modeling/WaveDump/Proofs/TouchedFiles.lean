import WaveDump.Proofs.Routes

/-!
# Files that a run touches

Listing probes and showing the configuration leave every file alone, and so does a conversion to
standard output. A conversion into a file first makes sure that it can start: nothing is created
before the configuration is accepted and the input is open. So a run that is refused leaves the
directory as it was, and any other conversion sets one file, at the place that its output leads to.
-/

namespace WaveDump

namespace Directory

section Setting

variable (files : List (Place × List UInt8)) (place : Place) (first second : List UInt8)

/-- The files with every one at the place given the content. -/
private def setFiles (content : List UInt8) : List (Place × List UInt8) :=
  files.map fun file => if file.1 = place then (place, content) else file

private theorem setFiles_setFiles :
    setFiles (setFiles files place first) place second = setFiles files place second := by
  simp only [setFiles, List.map_map]
  apply List.map_congr_left
  intro file _
  by_cases here : file.1 = place <;> simp [here]

private theorem setFiles_of_absent (absent : files.lookup place = none) :
    setFiles files place first = files := by
  have elsewhere : ∀ file ∈ files, (if file.1 = place then (place, first) else file) = id file := by
    intro file member
    have differ := List.lookup_eq_none_iff.mp absent file member
    have other : ¬file.1 = place := by
      intro same
      simp [same] at differ
    simp only [other, ↓reduceIte, id_eq]
  simp only [setFiles, List.map_congr_left elsewhere, List.map_id]

end Setting

variable {directory : Directory} {place : Place}

private theorem put_of_present (present : (directory.content? place).isSome)
    (content : List UInt8) :
    directory.put place content =
      { directory with files := setFiles directory.files place content } := by
  simp only [put, present, ↓reduceIte, setFiles]

theorem put_put (directory : Directory) (place : Place) (first second : List UInt8) :
    (directory.put place first).put place second = directory.put place second := by
  have present : ((directory.put place first).content? place).isSome := by
    simp only [content?_put_self, Option.isSome_some]
  simp only [put_of_present present]
  by_cases known : (directory.content? place).isSome
  · simp only [put_of_present known, setFiles_setFiles]
  · have absent : directory.files.lookup place = none := by
      simpa only [content?, Option.not_isSome_iff_eq_none] using known
    have kept := setFiles_of_absent directory.files place second absent
    simp only [setFiles] at kept
    simp only [put, known, Bool.false_eq_true, ↓reduceIte, setFiles, List.map_append, kept,
      List.map_cons, List.map_nil]

/-! ## Outputs -/

/-- Creating the output at the path makes a file at the place. -/
def CreatesAt (directory : Directory) (path : String) (place : Place) : Prop :=
  ∃ created, directory.create path = .ok (.file place, created)

/-- What is left when at most the file has been set that an output leads to. -/
inductive TouchedAt (directory : Directory) (output : Option String) : Directory → Prop
  | untouched : TouchedAt directory output directory
  | written {path : String} {place : Place} (named : output = some path)
      (leads : directory.CreatesAt path place) (content : List UInt8) :
      TouchedAt directory output (directory.put place content)

variable {path : String} {target : Output} {created after : Directory} {output : Option String}

theorem create_eq_device {outlet : Outlet}
    (made : directory.create path = .ok (.device outlet, created)) : created = directory := by
  unfold create at made
  split at made
  · simp at made
  · simp at made
  · split at made
    · simp at made
    · split at made <;> simp at made
      exact made.2.symm

theorem touchedAt_create (made : directory.create path = .ok (target, created)) :
    directory.TouchedAt (some path) created := by
  cases target with
  | file place =>
      simp only [directory.create_eq_file made]
      exact .written rfl ⟨created, made⟩ []
  | device outlet =>
      simp only [create_eq_device made]
      exact .untouched

/-- Closing a created output sets its file, or leaves everything as it was if it is a device. -/
theorem touchedAt_close (made : directory.create path = .ok (target, created))
    (content : List UInt8) : directory.TouchedAt (some path) (created.close target content) := by
  cases target with
  | file place =>
      simp only [close, directory.create_eq_file made, put_put]
      exact .written rfl ⟨created, made⟩ content
  | device outlet =>
      simp only [close, create_eq_device made]
      exact .untouched

/-- Where no file of the output is, everything is as it was. -/
theorem TouchedAt.content?_eq (touched : directory.TouchedAt output after)
    (elsewhere : ∀ path, output = some path → ¬directory.CreatesAt path place) :
    after.content? place = directory.content? place := by
  cases touched with
  | untouched => rfl
  | @written path set named leads content =>
      apply content?_put_of_ne
      rintro rfl
      exact elsewhere path named leads

theorem TouchedAt.eq_of_none (touched : directory.TouchedAt none after) : after = directory := by
  cases touched with
  | untouched => rfl
  | written named => contradiction

end Directory

/-! ## Courses of a conversion -/

theorem Output.sink_without_hasher (target : Output) (block : Nat) :
    target.sink block = { target.sink block with hasher := none } := by
  unfold sink
  split <;> rfl

theorem Output.sink_without_script (target : Output) (block : Nat) (hasher : Option Sha256.Hasher) :
    { target.sink block with script := [], hasher } = { target.sink block with hasher } := by
  unfold sink
  split <;> rfl

namespace CommandLine

variable {texts : List String} {environment : Environment} {request : ConvertRequest}
  {manner : Manner} {outcome : Outcome}

/-- The course of a conversion: its output is protected, or it converts between files or through
streams. -/
inductive ConvertRequest.Course (request : ConvertRequest) (manner : Manner)
    (environment : Environment) : Outcome → Prop
  | withheld {path : String}
      (kept : protected? request manner environment.directory = some path) :
      Course request manner environment
        (.failure environment.directory
          (notice ("output file exists, use -f to overwrite: " ++ path)))
  | betweenFiles {input output : String}
      (unprotected : protected? request manner environment.directory = none)
      (isInput : request.input = some input) (isOutput : request.outputPath? = some output) :
      Course request manner environment
        (convertBetweenFiles request manner environment input output)
  | throughStreams (unprotected : protected? request manner environment.directory = none)
      (oneStream : request.input = none ∨ request.outputPath? = none) :
      Course request manner environment
        (convertThroughStreams request manner environment request.outputPath?)

/-- A run takes one of the courses, and what it says may have a warning in front. -/
theorem exists_course (environment : Environment)
    (read : Request.ofTexts texts = .ok { command := .convert request, manner }) :
    ∃ outcome, request.Course manner environment outcome ∧ run texts environment =
      { outcome with stderr := overrideWarning request manner ++ outcome.stderr } := by
  simp only [run, read, runRequest, runConvert]
  cases guarded : protected? request manner environment.directory with
  | some path => exact ⟨_, .withheld guarded, rfl⟩
  | none =>
      cases isInput : request.input with
      | none => exact ⟨_, .throughStreams guarded (.inl isInput), rfl⟩
      | some input =>
          cases isOutput : request.outputPath? with
          | none =>
              have course := ConvertRequest.Course.throughStreams guarded (.inr isOutput)
              simp only [isOutput] at course
              exact ⟨_, course, rfl⟩
          | some output => exact ⟨_, .betweenFiles guarded isInput isOutput, rfl⟩

/-- An input is open, and hands out what the directory has for it by now. -/
inductive Opens (environment : Environment) (directory : Directory) : Option String → Source → Prop
  | standardInput : Opens environment directory none { data := environment.stdin }
  | named {path : String} {opened : Input}
      (found : environment.directory.openInput path = .ok opened) :
      Opens environment directory (some path) (directory.source opened blockSize)

/-- A conversion has everything to start: its configuration is accepted, its input is open and its
output created. -/
structure ConvertRequest.Starts (request : ConvertRequest) (environment : Environment)
    (encoder : Encoder) (source : Source) (target : Output) (created : Directory) : Prop where
  accepted : (Encoder.create request.capture (request.options environment.now)).1 = .ok encoder
  opened : Opens environment created request.input source
  made : createOutput environment.directory request.outputPath? = .ok (target, created)

/-- The history of a run that stores a dump: what is told before and after does not get into what is
sent. -/
def storing (before after : Log) (target : Output) (storage : StorageReport) : History :=
  .telling before ++ storage.history target ++ .telling after

theorem storing_nil (before : Log) (target : Output) (storage : StorageReport) :
    storing before [] target storage = .telling before ++ storage.history target :=
  List.append_nil _

/-- What a run leaves that has stored a dump in an output. -/
structure Outcome.Stores (outcome : Outcome) (limit : Severity) (target : Output)
    (created : Directory) (storage : StorageReport) : Prop where
  exitCode : outcome.exitCode = if storage.result.isOk then 0 else 1
  directory : outcome.directory = created.close target storage.stored
  sent : ∃ before after, outcome.stdout = (storing before after target storage).sentTo
      .standardOutput ∧
    ∃ ending, outcome.stderr = historyText limit (storing before after target storage) ++ ending

theorem convertBetweenFiles_stops_or_starts {input output : String}
    (isInput : request.input = some input) (isOutput : request.outputPath? = some output) :
    (∃ stderr, convertBetweenFiles request manner environment input output =
        .failure environment.directory stderr) ∨
      ∃ encoder source target created,
        request.Starts environment encoder source target created ∧
        (convertBetweenFiles request manner environment input output).Stores manner.limit target
          created (convertAndStore request.compression encoder source
            { target.sink blockSize with hasher := some .initial }) := by
  rcases accepted : Encoder.create request.capture (request.options environment.now) with
    ⟨error | encoder, log⟩
  · left
    simp only [convertBetweenFiles, convertFile, accepted, History.sentTo_telling]
    exact ⟨_, rfl⟩
  · rcases opened : environment.directory.openInput input with failure | source
    · left
      simp only [convertBetweenFiles, convertFile, accepted, opened, History.sentTo_telling]
      exact ⟨_, rfl⟩
    · rcases made : environment.directory.create output with failure | ⟨target, created⟩
      · left
        simp only [convertBetweenFiles, convertFile, accepted, opened, made, History.sentTo_telling]
        exact ⟨_, rfl⟩
      · right
        refine ⟨encoder, created.source source blockSize, target, created,
          { accepted := by simp only [accepted]
            opened := by simpa only [isInput] using Opens.named opened
            made := by simp only [isOutput, createOutput, made, Except.mapError] }, ?_⟩
        simp only [convertBetweenFiles, convertFile, accepted, opened, made,
          Output.sink_without_script]
        split
        · rename_i failed
          exact
            { exitCode := by
                simp only [failed]
                rfl
              directory := rfl
              sent := ⟨log, [], by rw [storing_nil], _, by rw [storing_nil]⟩ }
        · rename_i succeeded
          exact
            { exitCode := by
                simp only [succeeded]
                rfl
              directory := rfl
              sent := ⟨log, _, rfl, _, rfl⟩ }

/-- Through streams nothing is created but standard output or nothing is read but standard input,
so it makes no difference that the input is open before the output is created. -/
theorem opens_of_openSource {input output : Option String} {source : Source} {target : Output}
    {created : Directory} (oneStream : input = none ∨ output = none)
    (opened : openSource environment input = .ok source)
    (made : createOutput environment.directory output = .ok (target, created)) :
    Opens environment created input source := by
  cases input with
  | none =>
      simp only [openSource, Except.ok.injEq] at opened
      subst opened
      exact .standardInput
  | some path =>
      obtain rfl : output = none := by simpa using oneStream
      simp only [createOutput, Except.ok.injEq, Prod.mk.injEq] at made
      cases found : environment.directory.openInput path with
      | error failure => simp [openSource, found] at opened
      | ok given =>
          simp only [openSource, found, Except.ok.injEq] at opened
          simp only [← opened, ← made.2]
          exact .named found

theorem convertThroughStreams_stops_or_starts
    (oneStream : request.input = none ∨ request.outputPath? = none) :
    (∃ stderr, convertThroughStreams request manner environment request.outputPath? =
        .failure environment.directory stderr) ∨
      ∃ encoder source target created,
        request.Starts environment encoder source target created ∧
        (convertThroughStreams request manner environment request.outputPath?).Stores manner.limit
          target created (convertAndStore request.compression encoder source
            (target.sink blockSize)) := by
  rcases accepted : Encoder.create request.capture (request.options environment.now) with
    ⟨error | encoder, log⟩
  · left
    simp only [convertThroughStreams, accepted]
    exact ⟨_, rfl⟩
  · rcases opened : openSource environment request.input with reason | source
    · left
      simp only [convertThroughStreams, accepted, opened]
      exact ⟨_, rfl⟩
    · rcases made : createOutput environment.directory request.outputPath? with
        reason | ⟨target, created⟩
      · left
        simp only [convertThroughStreams, accepted, opened, made]
        exact ⟨_, rfl⟩
      · right
        refine ⟨encoder, source, target, created,
          { accepted := by simp only [accepted]
            opened := opens_of_openSource oneStream opened made
            made }, ?_⟩
        simp only [convertThroughStreams, accepted, opened, made]
        exact
          { exitCode := rfl
            directory := rfl
            sent := ⟨log, [], by rw [storing_nil], _, by rw [storing_nil]⟩ }

/-- A conversion stops before anything is created, or it has everything to start. -/
theorem ConvertRequest.Course.stops_or_starts
    (course : request.Course manner environment outcome) :
    (∃ stderr, outcome = .failure environment.directory stderr) ∨
      ∃ encoder source target created hasher,
        request.Starts environment encoder source target created ∧
        outcome.Stores manner.limit target created
          (convertAndStore request.compression encoder source
            { target.sink blockSize with hasher }) := by
  cases course with
  | withheld kept => exact .inl ⟨_, rfl⟩
  | betweenFiles unprotected isInput isOutput =>
      rcases convertBetweenFiles_stops_or_starts isInput isOutput with
        stopped | ⟨encoder, source, target, created, starts, stores⟩
      · exact .inl stopped
      · exact .inr ⟨encoder, source, target, created, _, starts, stores⟩
  | throughStreams unprotected oneStream =>
      rcases convertThroughStreams_stops_or_starts oneStream with
        stopped | ⟨encoder, source, target, created, starts, stores⟩
      · exact .inl stopped
      · rw [target.sink_without_hasher] at stores
        exact .inr ⟨encoder, source, target, created, none, starts, stores⟩

theorem touchedAt_createOutput {directory created : Directory} {output : Option String}
    {target : Output} (made : createOutput directory output = .ok (target, created)) :
    directory.TouchedAt output created ∧
      ∀ content, directory.TouchedAt output (created.close target content) := by
  cases output with
  | none =>
      simp only [createOutput, Except.ok.injEq, Prod.mk.injEq] at made
      rcases made with ⟨rfl, rfl⟩
      exact ⟨.untouched, fun content => .untouched⟩
  | some path =>
      cases madeAt : directory.create path with
      | error failure => simp [createOutput, madeAt, Except.mapError] at made
      | ok pair =>
          simp only [createOutput, madeAt, Except.mapError, Except.ok.injEq] at made
          subst made
          exact ⟨Directory.touchedAt_create madeAt, Directory.touchedAt_close madeAt⟩

/-- Whatever course a conversion takes, at most the file of its output is set. -/
theorem ConvertRequest.Course.touchedAt (course : request.Course manner environment outcome) :
    environment.directory.TouchedAt request.outputPath? outcome.directory := by
  rcases course.stops_or_starts with
    ⟨stderr, rfl⟩ | ⟨_, _, target, created, _, starts, stores⟩
  · exact .untouched
  · simp only [stores.directory]
    exact (touchedAt_createOutput starts.made).2 _

/-! ## Runs that are refused -/

/-- Why a conversion cannot start. -/
inductive ConvertRequest.Refused (request : ConvertRequest) (manner : Manner)
    (environment : Environment) : Prop
  | outputExists {path : String} (named : request.outputPath? = some path)
      (present : environment.directory.holds path) (unforced : manner.force = false)
  | rejected {error : ConfigError}
      (unaccepted :
        (Encoder.create request.capture (request.options environment.now)).1 = .error error)
  | noInput {path : String} {failure : Failure} (named : request.input = some path)
      (unopened : environment.directory.openInput path = .error failure)
  | noOutput {path : String} {failure : Failure} (named : request.outputPath? = some path)
      (uncreated : environment.directory.create path = .error failure)

/-- What a refused run leaves: everything as it was, and a failure without a byte of a dump. -/
structure Outcome.Spares (outcome : Outcome) (environment : Environment) : Prop where
  directory : outcome.directory = environment.directory
  exitCode : outcome.exitCode ≠ 0
  stdout : outcome.stdout = []

theorem spares_failure (environment : Environment) (stderr : String) :
    (Outcome.failure environment.directory stderr).Spares environment where
  directory := rfl
  exitCode := by simp [Outcome.failure]
  stdout := rfl

theorem ConvertRequest.Starts.accepts {encoder : Encoder} {source : Source} {target : Output}
    {created : Directory} (starts : request.Starts environment encoder source target created)
    (unprotected : protected? request manner environment.directory = none) :
    ¬request.Refused manner environment := by
  intro refused
  cases refused with
  | outputExists named present unforced =>
      simp [protected?, named, present, unforced] at unprotected
  | rejected unaccepted => simp [starts.accepted] at unaccepted
  | noInput named unopened =>
      have opened := starts.opened
      simp only [named] at opened
      cases opened with
      | named found => simp [found] at unopened
  | noOutput named uncreated =>
      have made := starts.made
      simp [createOutput, named, uncreated, Except.mapError] at made

theorem ConvertRequest.Course.spares (course : request.Course manner environment outcome)
    (refused : request.Refused manner environment) : outcome.Spares environment := by
  rcases course.stops_or_starts with ⟨stderr, rfl⟩ | ⟨_, _, _, _, _, starts, _⟩
  · exact spares_failure environment stderr
  · cases course with
    | withheld kept => exact spares_failure environment _
    | betweenFiles unprotected => exact absurd refused (starts.accepts unprotected)
    | throughStreams unprotected => exact absurd refused (starts.accepts unprotected)

/-- A command line that asks for nothing to be stored in a file. -/
inductive ReadsOnly (texts : List String) : Prop
  | probes {selection : Selection} {manner : Manner}
      (read : Request.ofTexts texts = .ok { command := .probes selection, manner })
  | config {manner : Manner} (read : Request.ofTexts texts = .ok { command := .config, manner })
  | toStandardOutput {request : ConvertRequest} {manner : Manner}
      (read : Request.ofTexts texts = .ok { command := .convert request, manner })
      (toStdout : request.toStdout)
  | stopped {stop : Stop} (read : Request.ofTexts texts = .error stop)

/-- A command line that is wrong, or that asks for a conversion which cannot start. -/
inductive Rejected (texts : List String) (environment : Environment) : Prop
  | usage {error : UsageError} (read : Request.ofTexts texts = .error (.error error))
  | refused {request : ConvertRequest} {manner : Manner}
      (read : Request.ofTexts texts = .ok { command := .convert request, manner })
      (refused : request.Refused manner environment)

theorem directory_runProbes (selection : Selection) (manner : Manner) (environment : Environment) :
    (runProbes selection manner environment).directory = environment.directory := by
  simp only [runProbes]
  split <;> rfl

theorem touchedAt_run (environment : Environment)
    (read : Request.ofTexts texts = .ok { command := .convert request, manner }) :
    environment.directory.TouchedAt request.outputPath? (run texts environment).directory := by
  rcases exists_course environment read with ⟨outcome, course, ran⟩
  simp only [ran]
  exact course.touchedAt

theorem ReadsOnly.directory_eq (readsOnly : ReadsOnly texts) :
    (run texts environment).directory = environment.directory := by
  cases readsOnly with
  | probes read =>
      simp only [run, read, runRequest]
      exact directory_runProbes _ _ environment
  | config read =>
      simp only [run, read, runRequest]
      rfl
  | toStandardOutput read toStdout =>
      have touched := touchedAt_run environment read
      simp only [ConvertRequest.outputPath?, toStdout, ↓reduceIte] at touched
      exact touched.eq_of_none
  | @stopped stop read => cases stop <;> simp only [run, read]

theorem Rejected.spares (rejected : Rejected texts environment) :
    (run texts environment).Spares environment := by
  cases rejected with
  | usage read =>
      simp only [run, read]
      exact ⟨rfl, by simp, rfl⟩
  | refused read refused =>
      rcases exists_course environment read with ⟨outcome, course, ran⟩
      have spares := course.spares refused
      simp only [ran]
      exact ⟨spares.directory, spares.exitCode, spares.stdout⟩

/-- Runs that only read, and runs that are rejected, leave the directory as it was; the rejected
ones fail and write nothing to standard output. Whatever becomes of any other conversion, the only
file that is different afterwards is the one that its output leads to. -/
theorem run_touches_output_only (texts : List String) (environment : Environment) :
    (ReadsOnly texts → (run texts environment).directory = environment.directory) ∧
    (Rejected texts environment →
      (run texts environment).directory = environment.directory ∧
      (run texts environment).exitCode ≠ 0 ∧ (run texts environment).stdout = []) ∧
    ∀ request manner, Request.ofTexts texts = .ok { command := .convert request, manner } →
      environment.directory.TouchedAt request.outputPath? (run texts environment).directory ∧
      ∀ place, (∀ path, request.outputPath? = some path →
          ¬environment.directory.CreatesAt path place) →
        (run texts environment).directory.content? place =
          environment.directory.content? place := by
  refine ⟨ReadsOnly.directory_eq, ?_, ?_⟩
  · intro rejected
    have spares := rejected.spares
    exact ⟨spares.directory, spares.exitCode, spares.stdout⟩
  · intro request manner read
    have touched := touchedAt_run environment read
    exact ⟨touched, fun place elsewhere => touched.content?_eq elsewhere⟩

/-- A directory with a capture and with an output that is there already. -/
def takenEnvironment : Environment where
  directory := captureDirectory
  now := busEnvironment.now

def forcedManner : Manner :=
  { busManner with force := true }

theorem takenOutput_created : captureDirectory.create "out.vcd" =
    .ok (.file ["out.vcd"], captureDirectory.put ["out.vcd"] []) := by
  cbv

theorem forcedLine_read : Request.ofTexts (busLine ["-f", "in.raw", "out.vcd"]) =
    .ok { command := .convert (busRequest .none (some "in.raw") (some "out.vcd") false)
          manner := forcedManner } := by
  cbv

theorem run_touches_output_only_taken :
    (run ["probes", "-C", "clk"] takenEnvironment).directory = captureDirectory ∧
    (run (busLine ["-cf", "in.raw", "out.vcd"]) takenEnvironment).directory = captureDirectory ∧
    ((run (busLine ["in.raw", "out.vcd"]) takenEnvironment).directory = captureDirectory ∧
      (run (busLine ["in.raw", "out.vcd"]) takenEnvironment).exitCode ≠ 0 ∧
      (run (busLine ["in.raw", "out.vcd"]) takenEnvironment).stdout = []) ∧
    (run (busLine ["-f", "in.raw", "out.vcd"]) takenEnvironment).directory.content? ["in.raw"] =
      captureDirectory.content? ["in.raw"] := by
  have isProbes : ReadsOnly ["probes", "-C", "clk"] :=
    .probes (show Request.ofTexts ["probes", "-C", "clk"] =
      .ok { command := .probes { names := ["clk"], disabled := [], rate := none }
            manner := { busManner with json := false } } by cbv)
  have toStdout : ReadsOnly (busLine ["-cf", "in.raw", "out.vcd"]) :=
    .toStandardOutput (show Request.ofTexts (busLine ["-cf", "in.raw", "out.vcd"]) =
      .ok { command := .convert (busRequest .none (some "in.raw") (some "out.vcd") true)
            manner := forcedManner } by cbv) rfl
  have present : takenEnvironment.directory.holds "out.vcd" := by cbv
  have refused : Rejected (busLine ["in.raw", "out.vcd"]) takenEnvironment :=
    .refused route_fileToFile.read (.outputExists rfl present rfl)
  refine ⟨(run_touches_output_only _ takenEnvironment).1 isProbes,
    (run_touches_output_only _ takenEnvironment).1 toStdout,
    (run_touches_output_only _ takenEnvironment).2.1 refused,
    ((run_touches_output_only _ takenEnvironment).2.2 _ _ forcedLine_read).2 _ ?_⟩
  rintro path named ⟨created, made⟩
  obtain rfl : "out.vcd" = path := Option.some.inj named
  have madeHere : captureDirectory.create "out.vcd" = .ok (.file ["in.raw"], created) := made
  simp [takenOutput_created] at madeHere

end CommandLine

end WaveDump
