import WaveDump.Proofs.ConversionEnds
import WaveDump.Proofs.TouchedFiles

/-!
# Captures that a conversion keeps

A conversion reads its capture and writes its dump, and the two do not meet unless the output leads
to the file of the capture. Without force such an output is refused, because it exists. With force
the output is emptied before anything is read: the capture is lost and the dump is one of an empty
capture. In every other case the capture is there afterwards as it was before, and a dump that is
reported as written is the one of the bytes that the input held.
-/

namespace WaveDump

/-! ## Success means that everything is stored -/

namespace Sink

variable {sink : Sink}

end Sink

namespace StreamReport

variable {report : StreamReport} {early : List UInt8} {ended : Except Failure Unit × Sink}
  {statistics : StreamStatistics}

end StreamReport

namespace Directory

variable {directory : Directory} {path : String} {place : Place}

theorem entry?_of_lookup {folder : Place} {name : String} {entry : Option Entry}
    (found : directory.lookup folder name = .ok entry) :
    directory.entry? (folder.child name) = entry := by
  unfold lookup at found
  split at found
  · simp at found
  · simpa using found

theorem entry?_of_content? (present : (directory.content? place).isSome) :
    directory.entry? place ≠ none := by
  unfold entry?
  split
  · simp
  · split <;> simp

theorem content?_of_entry? (isFile : directory.entry? place = some .file) :
    (directory.content? place).isSome := by
  unfold entry? at isFile
  split at isFile
  · simp at isFile
  · split at isFile
    · simp at isFile
    · by_contra absent
      simp [absent] at isFile

theorem content?_of_openInput (opened : directory.openInput path = .ok (.file place)) :
    (directory.content? place).isSome := by
  unfold openInput at opened
  split at opened
  · simp at opened
  · simp at opened
  · split at opened
    · simp at opened
    · simp at opened
    · simp at opened
    · rename_i found
      split at opened
      · simp at opened
      · cases opened
        exact content?_of_entry? (entry?_of_lookup found)
    · split at opened <;> simp at opened

/-- A path where a file can be created leads to the file that is there. -/
theorem holds_of_createsAt (leads : directory.CreatesAt path place)
    (present : (directory.content? place).isSome) : directory.holds path := by
  rcases leads with ⟨created, made⟩
  unfold create at made
  split at made
  · simp at made
  · simp at made
  · rename_i approached
    split at made
    · simp at made
    · rename_i notFolder
      split at made
      · simp at made
      · simp at made
      · rename_i found
        simp [holds, openInput, approached, found, notFolder, Except.isOk, Except.toBool]
      · rename_i found
        simp only [Except.ok.injEq, Prod.mk.injEq, Output.file.injEq] at made
        simp only [← made.1] at present
        exact absurd (entry?_of_lookup found) (entry?_of_content? present)
      · simp at made

end Directory

namespace CommandLine

variable {texts : List String} {environment : Environment} {request : ConvertRequest}
  {manner : Manner} {outcome : Outcome} {place : Place}

/-! ## Captures -/

/-- Force lets the output replace the capture: both paths lead to one file. -/
structure ConvertRequest.ReplacesCapture (request : ConvertRequest) (manner : Manner)
    (directory : Directory) : Prop where
  forced : manner.force
  meets : ∃ input output place, request.input = some input ∧ request.outputPath? = some output ∧
    directory.openInput input = .ok (.file place) ∧ directory.CreatesAt output place

/-- An output that is not refused does not lead to the file of the capture, unless it may replace
it. -/
theorem ConvertRequest.not_createsAt {input output : String}
    (apart : ¬request.ReplacesCapture manner environment.directory)
    (allowed : ¬request.Refused manner environment) (isInput : request.input = some input)
    (opened : environment.directory.openInput input = .ok (.file place))
    (isOutput : request.outputPath? = some output) :
    ¬environment.directory.CreatesAt output place := by
  intro leads
  cases forced : manner.force with
  | true => exact apart ⟨forced, input, output, place, isInput, isOutput, opened, leads⟩
  | false =>
      have present := Directory.holds_of_createsAt leads (Directory.content?_of_openInput opened)
      exact allowed (.outputExists isOutput present forced)

theorem ConvertRequest.Course.keeps {input : String}
    (course : request.Course manner environment outcome)
    (apart : ¬request.ReplacesCapture manner environment.directory)
    (isInput : request.input = some input)
    (opened : environment.directory.openInput input = .ok (.file place)) :
    outcome.directory.content? place = environment.directory.content? place := by
  by_cases refused : request.Refused manner environment
  · simp only [(course.spares refused).directory]
  · apply course.touchedAt.content?_eq
    intro output isOutput
    exact request.not_createsAt apart refused isInput opened isOutput

/-- A run has brought bytes to an output. What was sent to a device is part of a history, and both
standard streams show that history. -/
inductive Outcome.Brings (outcome : Outcome) (limit : Severity) : Output → List UInt8 → Prop
  | file {place : Place} {stored : List UInt8}
      (held : outcome.directory.content? place = some stored) :
      Brings outcome limit (.file place) stored
  | device {outlet : Outlet} {history : History} {before after : String}
      (printed : outcome.stdout = history.sentTo .standardOutput)
      (shown : outcome.stderr = before ++ historyText limit history ++ after) :
      Brings outcome limit (.device outlet) (history.sentTo outlet)

theorem sentTo_storing (before after : Log) (outlet : Outlet) (storage : StorageReport) :
    (storing before after (.device outlet) storage).sentTo outlet = storage.stored := by
  simp only [storing, History.sentTo_append, History.sentTo_telling,
    StorageReport.sentTo_history_device, List.nil_append, List.append_nil]

theorem Outcome.Stores.brings {limit : Severity} {target : Output} {created : Directory}
    {storage : StorageReport} (stores : outcome.Stores limit target created storage)
    (warning : String) :
    Outcome.Brings { outcome with stderr := warning ++ outcome.stderr } limit target
      storage.stored := by
  cases target with
  | file place =>
      apply Brings.file
      simp only [stores.directory, Directory.close, Directory.content?_put_self]
  | device outlet =>
      rcases stores.sent with ⟨before, after, printed, ending, shown⟩
      have shownBehind : warning ++ outcome.stderr =
          warning ++ historyText limit (storing before after (.device outlet) storage) ++
            ending := by
        simp only [shown, String.append_assoc]
      simp only [← sentTo_storing before after outlet storage]
      exact .device printed shownBehind

end CommandLine

end WaveDump
