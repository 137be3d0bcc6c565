import WaveDump.Proofs.ChangedLines
import WaveDump.Proofs.ProbeListing
import WaveDump.Proofs.Reading
import WaveDump.Proofs.Routes
import WaveDump.Proofs.SharedArguments

/-!
# What the listing of probes promises

The listing is made from the channels alone, a dump from an encoder that checks more than them.
Without a unit size of its own a conversion has nothing else to object to, so both accept the same
channels and refuse the others with the same words. What is listed is then what a dump declares, and
where a bit is listed a dump shows the level of the bit of the sample that is listed first for it.
-/

namespace WaveDump

/-! ## Value lines -/

/-- The level that a value shows at a place, counted from the least significant. -/
def Value.shownAt? : Value → Nat → Option Bool
  | .scalar level, place => if place = 0 then some level else none
  | .vector places, place => places.reverse[place]?.join

/-- A value shows the level of the first bit listed for a place, and none where no bit is listed. -/
theorem Wiring.shownAt?_value {wiring : Wiring}
    (sorted : wiring.bits.Pairwise fun left right => right.bit ≤ left.bit) (sample : Sample)
    (place : Nat) : (wiring.value sample).shownAt? place = levelAt? wiring.bits sample place := by
  cases wiring with
  | scalar position =>
      rcases place with _ | place <;> simp [value, Value.shownAt?, levelAt?, bits]
  | vector placements =>
      have descending : placements.Pairwise fun left right => right.bit ≤ left.bit := sorted
      rw [value_vector descending, Value.shownAt?, bits]
      by_cases within : place < (vector placements).span
      · simp [within]
      · -- Past the span there is no place of the value, and no bit either.
        have notListed : placements.find? (fun placement => placement.bit = place) = none := by
          rw [List.find?_eq_none]
          intro placement member
          have below := bit_lt_span descending placement member
          simp only [decide_eq_true_eq]
          omega
        simp [levelAt?, notListed, within]

/-- A value change is that of a listed probe: at every place it shows the level that the sample has
at the first bit listed for the place. -/
structure ProbeEntry.ShownBy (entry : ProbeEntry) (sample : Sample) (change : ValueChange) :
    Prop where
  symbol : change.symbol = entry.symbol
  level : ∀ place, change.value.shownAt? place = levelAt? entry.bits sample place

/-- Whether a sample starts a block: the first one does, and every one unlike the one before. -/
def startsBlock (samples : List Sample) (index : Nat) : Bool :=
  index = 0 || samples.getD index [] != samples.getD (index - 1) []

/-- The blocks of samples in which value lines show listed probes, in the order of the listing. The
first block shows all of them. -/
def ShowsEntries (timescale : Timescale) (rate : Option Nat) (entries : List ProbeEntry)
    (samples : List Sample) (blocks : List Block) : Prop :=
  List.Forall₂ (fun index block => block.time = timescale.stamp rate (index + 1) ∧
    ∃ shown, shown.Sublist entries ∧ (index = 0 → shown = entries) ∧
      List.Forall₂ (fun entry change => entry.ShownBy (samples.getD index []) change) shown
        block.changes)
    ((List.range samples.length).filter (startsBlock samples)) blocks

namespace Encoder

variable {capture : Capture} {options : EncoderOptions} {encoder : Encoder}

/-- Whole samples of a frame have the unit size already. -/
theorem resize_ofFrame {size : Nat} (content : List UInt8) {index : Nat}
    (within : index < (Sample.ofFrame size content).length) :
    ((Sample.ofFrame size content).getD index []).resize size =
      (Sample.ofFrame size content).getD index [] := by
  rw [List.getD_eq_getElem _ _ within]
  apply Sample.resize_of_length
  rw [Sample.getElem_ofFrame]
  rw [Sample.length_ofFrame] at within
  have fits : index * size + size ≤ content.length := by
    rw [← Nat.succ_mul]
    exact (Nat.mul_le_mul_right size within).trans (Nat.div_mul_le_self _ _)
  rw [List.length_take, List.length_drop]
  omega

theorem filter_emits (encoder : Encoder) (content : List UInt8) :
    let samples := Sample.ofFrame encoder.unitSize content
    (List.range samples.length).filter (encoder.emits samples) =
      (List.range samples.length).filter (startsBlock samples) := by
  intro samples
  apply List.filter_congr
  intro index member
  have within : index < samples.length := List.mem_range.mp member
  rw [emits, startsBlock, resize_ofFrame content within,
    resize_ofFrame content (show index - 1 < samples.length by omega)]

theorem blocks_show (accepted : (create capture options).1 = .ok encoder) (content : List UInt8) :
    let samples := Sample.ofFrame encoder.unitSize content
    ShowsEntries (.ofRate capture.rate) capture.rate (encoder.registry.probes.map Probe.entry)
      samples (encoder.blocks samples) := by
  intro samples
  rcases create_eq_ok accepted with ⟨built, _, isFresh⟩
  have timescale : encoder.timescale = .ofRate capture.rate := by rw [isFresh]; rfl
  have rate : encoder.rate = capture.rate := by rw [isFresh]; rfl
  rw [ShowsEntries, blocks, blocksUpTo, ← filter_emits, List.forall₂_map_right_iff,
    List.forall₂_same]
  intro index _
  refine ⟨by rw [blockAt, timescale, rate], (encoder.listed samples index).map Probe.entry,
    List.filter_sublist.map _, ?_, ?_⟩
  · rintro rfl
    simp [listed]
  · -- Entries and changes come from the same probes, so they are compared probe by probe.
    rw [blockAt, List.forall₂_map_left_iff, List.forall₂_map_right_iff, List.forall₂_same]
    intro probe member
    have sorted := Registry.bits_descending_of_build built (List.mem_filter.mp member).1
    exact ⟨rfl, Wiring.shownAt?_value sorted _⟩

end Encoder

namespace CommandLine

/-! ## Channels that are refused -/

/-- What stands before the words of the registry when a conversion reports them. -/
def refusalLead (request : ConvertRequest) : String :=
  match request.input, request.outputPath? with
  | some input, some _ => input ++ ": configuration error: "
  | _, _ => ""

section Runs

variable {texts : List String} {selection : Selection} {request : ConvertRequest}
  {manner : Manner} {environment : Environment}

theorem run_of_probes
    (asks : Request.ofTexts texts = .ok { command := .probes selection, manner }) :
    run texts environment = runProbes selection manner environment := by
  simp only [run, asks, runRequest]

theorem Converts.options_eq (converts : Converts texts selection request manner) (now : Moment) :
    request.options now = { date := request.date.getD now, unitSize := none } := by
  rw [ConvertRequest.options, converts.unitSize]

theorem Converts.names_eq (converts : Converts texts selection request manner) :
    request.names = selection.names := by
  rw [← converts.selection]

section Refused

variable {failure : RegistryError}
  (refused : Registry.ofChannels selection.capture.channels = .error failure)
include refused

theorem create_of_refused (options : EncoderOptions) :
    Encoder.create selection.capture options = (.error (.registry failure), []) := by
  simp only [Encoder.create, refused]

theorem run_of_probes_refused
    (asks : Request.ofTexts texts = .ok { command := .probes selection, manner }) :
    run texts environment = .failure environment.directory (notice failure.message) := by
  simp only [run_of_probes asks, runProbes, refused]

theorem Converts.run_refused (converts : Converts texts selection request manner)
    (unprotected : protected? request manner environment.directory = none) :
    run texts environment = .failure environment.directory
      (overrideWarning request manner ++ notice (refusalLead request ++ failure.message)) := by
  have noEncoder : Encoder.create request.capture (request.options environment.now) =
      (.error (.registry failure), []) := by
    rw [converts.selection, create_of_refused refused]
  have throughStreams (output : Option String) :
      convertThroughStreams request manner environment output =
        .failure environment.directory (notice failure.message) := by
    simp [convertThroughStreams, noEncoder, ConfigError.message, logLines, Log.upTo]
  have betweenFiles (input output : String) :
      convertBetweenFiles request manner environment input output =
        .failure environment.directory
          (notice (input ++ ": configuration error: " ++ failure.message)) := by
    have words : input ++ ": " ++ (ConversionError.config (.registry failure)).message =
        input ++ ": configuration error: " ++ failure.message := by
      have told : (ConversionError.config (.registry failure)).message =
          "configuration error: " ++ failure.message := rfl
      have joined : ": " ++ "configuration error: " = ": configuration error: " := by decide
      rw [told, ← joined, String.append_assoc, String.append_assoc, String.append_assoc]
    simp only [convertBetweenFiles, convertFile, noEncoder, words, Outcome.failure]
    rfl
  simp only [run, converts.read, runRequest, runConvert, unprotected, refusalLead]
  cases request.input with
  | none => simp only [throughStreams, Outcome.failure, String.empty_append]
  | some input =>
      cases request.outputPath? with
      | none => simp only [throughStreams, Outcome.failure, String.empty_append]
      | some output => simp only [betweenFiles, Outcome.failure]

end Refused

/-! ## Channels that are accepted -/

/-- A run that has listed the entries, as JSON if that was asked for and as lines otherwise. Lines
can be told apart by their line feeds as long as no name holds one. -/
structure Outcome.Lists (outcome : Outcome) (manner : Manner) (entries : List ProbeEntry) :
    Prop where
  exitCode : outcome.exitCode = 0
  json : manner.json → ∃ text, outcome.stdout = bytesOf text ∧ readJsonListing? text = some entries
  lines : manner.json = false → ∃ text, outcome.stdout = bytesOf text ∧
    ToldInLines isEntryLine ProbeEntry.read? text entries ∧
    ((∀ entry ∈ entries, Unbroken entry.name) →
      ((linesOf text.toList).filter isEntryLine).map ProbeEntry.read? = entries.map some)

/-- A dump of a capture that declares the entries in its header and shows them in its body. -/
structure DumpsEntries (selection : Selection) (entries : List ProbeEntry) (content : List UInt8)
    (header body : String) : Prop where
  declared : ToldInLines (startsWith "$var ") readDeclaration? header
    (entries.map ProbeEntry.declaration)
  declarations : (∀ entry ∈ entries, Unbroken entry.name) →
    ((linesOf header.toList).filter (startsWith "$var ")).map readDeclaration? =
      (entries.map ProbeEntry.declaration).map some
  shown : ∃ blocks, Block.readAll? body = some blocks ∧
    ShowsEntries (.ofRate selection.rate) selection.rate entries
      (Sample.ofFrame (bytesFor selection.names.length) content) blocks

section Accepted

variable {registry : Registry}
  (built : Registry.ofChannels selection.capture.channels = .ok registry)
include built

theorem exists_created (date : Moment) :
    ∃ encoder, (Encoder.create selection.capture { date, unitSize := none }).1 = .ok encoder ∧
      encoder.registry = registry ∧ encoder.unitSize = bytesFor selection.names.length := by
  have size : selection.capture.channels.length = selection.names.length := List.length_map _
  refine ⟨Encoder.fresh registry selection.capture { date, unitSize := none }
    (bytesFor selection.names.length), ?_, rfl, rfl⟩
  simp only [Encoder.create, built, Encoder.chooseUnitSize, size]

theorem run_of_probes_lists
    (asks : Request.ofTexts texts = .ok { command := .probes selection, manner }) :
    (run texts environment).Lists manner (registry.probes.map Probe.entry) := by
  rw [run_of_probes asks, runProbes]
  simp only [built]
  refine ⟨rfl, ?_, ?_⟩
  · intro json
    exact ⟨_, by rw [if_pos json], readJsonListing?_probesJson _ registry⟩
  · intro noJson
    refine ⟨_, by rw [if_neg (by simp [noJson])], probeLines_told _ registry, ?_⟩
    intro names
    rw [List.forall_mem_map] at names
    exact probeLines_read_back _ (fun _ => Registry.symbol_ne_lineFeed built) names

end Accepted

theorem dumpsEntries_of_create {encoder : Encoder} {options : EncoderOptions}
    (created : (Encoder.create selection.capture options).1 = .ok encoder)
    (derived : encoder.unitSize = bytesFor selection.names.length)
    (toolName : Unbroken options.toolName) (toolVersion : Unbroken options.toolVersion)
    (content : List UInt8) :
    DumpsEntries selection (encoder.registry.probes.map Probe.entry) content
      (Encoder.headerFor encoder.registry selection.capture options).render
      (String.join ((encoder.blocks (Sample.ofFrame encoder.unitSize content)).map
        Block.text)) where
  declared := Header.told (Encoder.headerFor encoder.registry selection.capture options)
  declarations := by
    intro names
    rw [List.forall_mem_map] at names
    rcases Encoder.create_eq_ok created with ⟨built, _, _⟩
    have printable : (Encoder.headerFor encoder.registry selection.capture options).Printable :=
      ⟨toolName, toolVersion, names, fun _ => Registry.symbol_ne_lineFeed built⟩
    rw [Header.declarations_read_back printable, List.map_map, List.map_map]
    rfl
  shown := by
    refine ⟨_, Block.readAll?_join (Encoder.blocks_printable created _), ?_⟩
    have shows := Encoder.blocks_show created content
    simp only [derived] at shows ⊢
    exact shows

/-- Whichever route a capture takes, its dump declares and shows what is listed. -/
theorem Route.dumpsEntries {registry : Registry} {content : List UInt8} {target : Option Place}
    (route : Route texts environment content request manner target)
    (converts : Converts texts selection request manner)
    (built : Registry.ofChannels selection.capture.channels = .ok registry) :
    (run texts environment).exitCode = 0 ∧
      let header := (Encoder.headerFor registry selection.capture
        (request.options environment.now)).render
      ∃ body, ((run texts environment).delivered target).bind request.compression.unpack? =
          some (textBytes (header ++ body)) ∧
        DumpsEntries selection (registry.probes.map Probe.entry) content header body := by
  have toolName : Unbroken "logic2vcd" := by decide
  have toolVersion : Unbroken "0.1.0" := by decide
  rcases exists_created built (request.date.getD environment.now) with
    ⟨encoder, created, rfl, derived⟩
  have positive : 0 < encoder.unitSize := by
    have someName := (convert_admissible converts.read).1
    rw [converts.names_eq, ← List.length_pos_iff] at someName
    rw [derived, bytesFor]
    omega
  rw [← converts.options_eq] at created
  rcases createdHere : Encoder.create request.capture (request.options environment.now) with
    ⟨result, log⟩
  obtain rfl : result = .ok encoder := by
    rwa [← converts.selection, createdHere] at created
  have succeeds := route.accepted createdHere
  rcases Encoder.frame_of_create created content encoder.unitSize with ⟨text, _⟩
  rw [Nat.max_eq_left positive, text] at succeeds
  refine ⟨succeeds.exitCode, _, ?_, dumpsEntries_of_create created derived toolName toolVersion
    content⟩
  rw [succeeds.delivered, Option.bind_some, Compression.unpack?_pack]

end Runs

/-- Listing and converting agree about every selection of channels. A line that lists it is one that
converts it with the other word in its place. A listing succeeds if and only if there is an encoder
without a unit size of its own; if there is none, both end with the same words of the registry.
Otherwise the entries of every listing, in lines or as JSON, are the declarations of every dump in
their order, and every value line of any capture shows, at the places that are listed for its
symbol, the bits of the sample that are listed for them. -/
theorem probes_tell_of_convert (selection : Selection) :
    (∀ texts manner, Request.ofTexts texts = .ok { command := .probes selection, manner } →
      (∃ before arguments request, texts = before ++ "probes" :: arguments ∧
        Converts (before ++ "convert" :: arguments) selection request manner) ∧
      ∀ environment date, (run texts environment).exitCode = 0 ↔
        ∃ encoder, (Encoder.create selection.capture { date, unitSize := none }).1 = .ok encoder) ∧
    ((∃ failure : RegistryError,
        (∀ texts manner environment,
          Request.ofTexts texts = .ok { command := .probes selection, manner } →
          run texts environment = .failure environment.directory (notice failure.message)) ∧
        ∀ texts environment request manner, Converts texts selection request manner →
          protected? request manner environment.directory = none →
          run texts environment = .failure environment.directory
            (overrideWarning request manner ++ notice (refusalLead request ++ failure.message))) ∨
      ∃ entries : List ProbeEntry, (entries.map ProbeEntry.symbol).Nodup ∧
        (∀ texts manner environment,
          Request.ofTexts texts = .ok { command := .probes selection, manner } →
          (run texts environment).Lists manner entries) ∧
        ∀ texts environment content request manner target,
          Route texts environment content request manner target →
          Converts texts selection request manner →
          (run texts environment).exitCode = 0 ∧
            ∃ encoder body, (Encoder.create selection.capture
                (request.options environment.now)).1 = .ok encoder ∧
              let header := (Encoder.headerFor encoder.registry selection.capture
                (request.options environment.now)).render
              ((run texts environment).delivered target).bind request.compression.unpack? =
                  some (textBytes (header ++ body)) ∧
                DumpsEntries selection entries content header body) := by
  cases built : Registry.ofChannels selection.capture.channels with
  | error failure =>
      refine ⟨fun texts manner asks => ⟨exists_converts asks, fun environment date => ?_⟩,
        .inl ⟨failure, ?_, ?_⟩⟩
      · simp [run_of_probes_refused built asks, create_of_refused built, Outcome.failure]
      · exact fun texts manner environment asks => run_of_probes_refused built asks
      · exact fun texts environment request manner => Converts.run_refused built
  | ok registry =>
      refine ⟨fun texts manner asks => ⟨exists_converts asks, fun environment date => ?_⟩,
        .inr ⟨registry.probes.map Probe.entry, ?_, ?_, ?_⟩⟩
      · rcases exists_created built date with ⟨encoder, created, _⟩
        simp [(run_of_probes_lists built asks).exitCode, created]
      · simpa [Probe.entry, Function.comp_def] using Registry.symbols_nodup built
      · exact fun texts manner environment asks => run_of_probes_lists built asks
      · intro texts environment content request manner target route converts
        rcases exists_created built (request.date.getD environment.now) with
          ⟨encoder, created, sameRegistry, _⟩
        rw [← converts.options_eq] at created
        rcases route.dumpsEntries converts built with ⟨exitCode, body, delivered, dumps⟩
        rw [← sameRegistry] at delivered dumps
        exact ⟨exitCode, encoder, body, created, delivered, sameRegistry ▸ dumps⟩

/-- The channels of `busLine`, for any subcommand that takes channels. -/
def busChannels : List String :=
  ["-C", "clk,data<1>", "--channels=data<0>,spare", "--disable", "spare"]

def plainManner : Manner :=
  { busManner with json := false }

/-- A conversion from standard input to standard output that leaves everything to the program. -/
def plainRequest (selection : Selection) : ConvertRequest where
  toSelection := selection
  unitSize := none
  date := none
  compression := .none
  input := none
  output := none
  toStdout := false

theorem converts_bus :
    Converts ("convert" :: busChannels) busSelection (plainRequest busSelection) plainManner where
  read := by cbv
  selection := rfl
  unitSize := rfl

theorem route_plain :
    Route ("convert" :: busChannels) busEnvironment busBytes (plainRequest busSelection) plainManner
      none where
  read := converts_bus.read
  source := ⟨none, .standardInput rfl, by decide⟩
  target := .standardOutput
  unprotected := by cbv

/-- A vector with a bit beyond the limit. -/
def wideSelection : Selection where
  names := ["a<65536>"]
  disabled := []
  rate := none

theorem probes_tell_of_convert_bus :
    (∃ entries : List ProbeEntry, (entries.map ProbeEntry.symbol).Nodup ∧
      (run ("probes" :: busChannels) busEnvironment).Lists plainManner entries ∧
      (run ("probes" :: busChannels ++ ["--json"]) busEnvironment).Lists busManner entries ∧
      (run ("convert" :: busChannels) busEnvironment).exitCode = 0 ∧
      ∃ header body,
        (run ("convert" :: busChannels) busEnvironment).stdout = textBytes (header ++ body) ∧
        DumpsEntries busSelection entries busBytes header body) ∧
    ∃ failure : RegistryError,
      run ["probes", "-C", "a<65536>"] busEnvironment =
        .failure busEnvironment.directory (notice failure.message) ∧
      run ["convert", "-C", "a<65536>"] busEnvironment =
        .failure busEnvironment.directory (notice failure.message) := by
  have asks : Request.ofTexts ("probes" :: busChannels) =
      .ok { command := .probes busSelection, manner := plainManner } := by cbv
  have asksJson : Request.ofTexts ("probes" :: busChannels ++ ["--json"]) =
      .ok { command := .probes busSelection, manner := busManner } := by cbv
  have asksWide : Request.ofTexts ["probes", "-C", "a<65536>"] =
      .ok { command := .probes wideSelection, manner := plainManner } := by cbv
  have convertsWide : Converts ["convert", "-C", "a<65536>"] wideSelection
      (plainRequest wideSelection) plainManner := ⟨by cbv, rfl, rfl⟩
  have built : Registry.ofChannels busSelection.capture.channels = .ok clockAndBusRegistry := by
    cbv
  have refused : Registry.ofChannels wideSelection.capture.channels =
      .error (.bitIndexTooLarge "a" 65536) := by cbv
  constructor
  · rcases probes_tell_of_convert busSelection with
      ⟨agree, ⟨failure, ends, _⟩ | ⟨entries, nodup, lists, dumps⟩⟩
    · rcases exists_created built busEnvironment.now with ⟨encoder, created, _⟩
      have succeeds := ((agree _ _ asks).2 busEnvironment busEnvironment.now).mpr ⟨encoder, created⟩
      rw [ends _ _ busEnvironment asks] at succeeds
      contradiction
    · rcases dumps _ _ _ _ _ _ route_plain converts_bus with
        ⟨exitCode, _, body, _, delivered, shown⟩
      exact ⟨entries, nodup, lists _ _ _ asks, lists _ _ _ asksJson, exitCode, _, body,
        Option.some.inj delivered, shown⟩
  · rcases probes_tell_of_convert wideSelection with
      ⟨agree, ⟨failure, ends, convertEnds⟩ | ⟨entries, _, lists, _⟩⟩
    · refine ⟨failure, ends _ _ _ asksWide, ?_⟩
      have ended := convertEnds _ busEnvironment _ _ convertsWide (by cbv)
      simpa [overrideWarning, refusalLead, plainRequest] using ended
    · rcases ((agree _ _ asksWide).2 busEnvironment busEnvironment.now).mp
        (lists _ _ busEnvironment asksWide).exitCode with ⟨encoder, created⟩
      rw [create_of_refused refused] at created
      contradiction

end CommandLine

end WaveDump
