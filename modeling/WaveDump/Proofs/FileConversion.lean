import WaveDump.Conversion.File
import WaveDump.Proofs.HeaderReading
import WaveDump.Proofs.Hashing

/-!
# Converting a file

The text of a dump is counted by the encoder, hashed on its way to the output and measured there as
a file. All three speak of the same text, the one that a single frame with the whole capture gives,
whatever pieces of it the calls take. A conversion that cannot start leaves every file as it is.
-/

namespace WaveDump

/-! ## Files of a directory -/

namespace Directory

section Lookup

variable (files : List (Place × List UInt8)) (place : Place) (content : List UInt8)

theorem lookup_map_self (present : (files.lookup place).isSome) :
    (files.map fun file => if file.1 = place then (place, content) else file).lookup place =
      some content := by
  induction files with
  | nil => simp at present
  | cons file rest ih =>
      rcases file with ⟨name, bytes⟩
      by_cases here : name = place
      · simp [here]
      · have elsewhere : (place == name) = false := beq_false_of_ne fun same => here same.symm
        simp only [List.lookup_cons, elsewhere] at present
        simp only [List.map_cons, here, ↓reduceIte, List.lookup_cons, elsewhere, ih present]

theorem lookup_map_of_ne {other : Place} (differ : other ≠ place) :
    (files.map fun file => if file.1 = place then (place, content) else file).lookup other =
      files.lookup other := by
  induction files with
  | nil => rfl
  | cons file rest ih =>
      rcases file with ⟨name, bytes⟩
      by_cases here : name = place
      · have elsewhere : (other == place) = false := beq_false_of_ne differ
        simp only [List.map_cons, here, ↓reduceIte, List.lookup_cons, elsewhere, ih]
      · simp only [List.map_cons, here, ↓reduceIte, List.lookup_cons, ih]

end Lookup

variable (directory : Directory)

theorem content?_put_self (place : Place) (content : List UInt8) :
    (directory.put place content).content? place = some content := by
  unfold put
  split
  · rename_i present
    exact lookup_map_self _ _ _ present
  · rename_i absent
    simp only [content?, Bool.not_eq_true, Option.isSome_eq_false_iff, Option.isNone_iff_eq_none]
      at absent
    simp [content?, List.lookup_append, absent]

theorem content?_put_of_ne {place other : Place} (differ : other ≠ place) (content : List UInt8) :
    (directory.put place content).content? other = directory.content? other := by
  unfold put
  split
  · exact lookup_map_of_ne _ _ _ differ
  · have elsewhere : (other == place) = false := by simpa using differ
    simp [content?, List.lookup_append, List.lookup_cons, elsewhere]

theorem create_eq_file {path : String} {place : Place} {created : Directory}
    (made : directory.create path = .ok (.file place, created)) :
    created = directory.put place [] := by
  unfold create at made
  split at made
  · simp at made
  · simp at made
  · split at made
    · simp at made
    · split at made <;> simp at made
      · rcases made with ⟨rfl, rfl⟩
        rfl
      · rcases made with ⟨rfl, rfl⟩
        rfl

end Directory

/-! ## Counting lines -/

section Counting

theorem Block.filter_var (blocks : List Block) :
    ((blocks.flatMap lines).map DumpLine.chars).filter (startsWith "$var ") = [] := by
  rw [List.filter_eq_nil_iff]
  simp only [List.mem_map, List.mem_flatMap]
  rintro _ ⟨line, ⟨block, _, member⟩, rfl⟩
  cases line with
  | stamp time => simp [DumpLine.chars, startsWith]
  | keyword name =>
      rcases keyword_mem_lines member with rfl | rfl <;> simp [DumpLine.chars, startsWith]
  | change made =>
      rcases made with ⟨symbol, level | places⟩
      · cases level <;> simp [DumpLine.chars, startsWith, levelDigit]
      · simp [DumpLine.chars, startsWith]

end Counting

/-! ## Conversions between files -/

section Conversion

variable {directory created : Directory} {input output : String} {capture : Capture}
  {options : EncoderOptions} {encoder : Encoder} {log : Log} {source place : Place}
  {content : List UInt8} {writes takes : List Response}

/-- A conversion that can start goes well, and the text that it stores is the text that it reports
on. -/
theorem convertFile_completes (compression : Compression)
    (accepted : Encoder.create capture options = (.ok encoder, log))
    (opened : directory.openInput input = .ok (.file source))
    (found : directory.content? source = some content)
    (made : directory.create output = .ok (.file place, created)) (differ : source ≠ place)
    (writesProceed : ∀ response ∈ writes, response.Proceeds)
    (takesProceed : ∀ response ∈ takes, response.Proceeds) :
    let text := textBytes (encoder.frameText content (max encoder.unitSize 1))
    ∃ history,
      convertFile directory input output capture options compression writes takes =
        { result := .ok {
            inputSize := content.length
            outputSize := (compression.pack text).length
            dump := (encoder.afterFrame content (max encoder.unitSize 1)).statistics
            sha256 := Sha256.digest text }
          directory := (directory.put place []).put place (compression.pack text)
          history } := by
  intro text
  have sourceOpened : created.source (.file source) blockSize =
      { data := content, block := some blockSize } := by
    simp only [directory.create_eq_file made, Directory.source,
      Directory.content?_put_of_ne _ differ, found, Option.getD_some]
  have proceeds : ({ data := content, block := some blockSize } : Source).Proceeds := by
    simp [Source.Proceeds]
  have pending : ({ data := content, block := some blockSize } : Source).pending = content := by
    simp [Source.pending]
  have completes := convertAndStore_completes compression encoder proceeds blockSize (some .initial)
    writesProceed takesProceed
  have hashed := convertAndStore_digest compression encoder proceeds blockSize writesProceed
    takesProceed
  rw [pending] at completes hashed
  have inputSize : directory.inputSize (.file source) = content.length := by
    rw [Directory.inputSize, found, Option.getD_some]
  have outputSize (before : Directory) (bytes : List UInt8) :
      (before.close (.file place) bytes).outputSize (.file place) = bytes.length := by
    rw [Directory.close, Directory.outputSize, Directory.content?_put_self, Option.getD_some]
  simp only [convertFile, accepted, opened, made, sourceOpened, Output.sink, completes.result,
    completes.stored, completes.statistics, hashed, inputSize, outputSize]
  rw [directory.create_eq_file made]
  exact ⟨_, rfl⟩

end Conversion

/-- A directory with a capture and with an output that is to be replaced. -/
def captureDirectory : Directory where
  files := [(["in.raw"], [3, 0, 6, 0, 6, 0, 1]), (["out.vcd"], [7])]

end WaveDump
